import SqlFixture.Settings.Cursor
import SqlFixture.Text.Number
import SqlFixture.Text.Utf8

/-
**Scalars on one or several lines.**

A scalar is a text, written plain, in quotes or as a block. White space between its words is kept
within a line; a single line end between words reads as a space, and of several line ends all but
the first one are kept.

* `Gap.folded`: what white space between words reads as;
* `readPlain`: a scalar without quotes;
* `readQuoted`: a scalar in single or double quotes.
-/

namespace SqlFixture.Settings

/-- How a scalar is written. -/
inductive ScalarStyle where
  | plain
  | quoted
  | literal
  | folded
deriving Repr, DecidableEq

/-- A text with its style and its tag. -/
structure Scalar where
  text : String
  style : ScalarStyle
  /-- The tag in front of it, in full. -/
  tag : Option Bytes
deriving Repr, DecidableEq

/-! ### White space between words -/

/-- White space that has been read behind a word. -/
structure Gap where
  /-- Blanks on the line of the word, the last one first. -/
  blanks : List Char
  broken : Bool
  /-- The first line end, unless it is escaped. -/
  firstBreak : Option Char
  /-- The other line ends, the last one first. -/
  laterBreaks : List Char

namespace Gap

/-- No white space. -/
def none : Gap := ⟨[], false, .none, []⟩

/-- A line end that does not count itself. -/
def escapedBreak : Gap := ⟨[], true, .none, []⟩

/-- Adds a blank; at the beginning of a line it does not count. -/
def blank (gap : Gap) (character : Char) : Gap :=
  if gap.broken then gap else { gap with blanks := character :: gap.blanks }

/-- Adds a line end. -/
def lineBreak (gap : Gap) (character : Char) : Gap :=
  if gap.broken then { gap with laterBreaks := character :: gap.laterBreaks }
  else ⟨[], true, some character, []⟩

/-- What the white space reads as, the last character first. -/
def folded (gap : Gap) : List Char :=
  if !gap.broken then gap.blanks
  else
    match gap.firstBreak with
    | .none => gap.laterBreaks
    | some first =>
      if first = '\n' then (if gap.laterBreaks.isEmpty then [' '] else gap.laterBreaks)
      else gap.laterBreaks ++ [first]

end Gap

/-! ### Plain scalars -/

/-- The characters that have a meaning at the beginning of a scalar. -/
def indicators : List Char := "-?:,[]\x7b\x7d#&*!|>'\"%@`".toList

/-- The characters that end a plain scalar between brackets. -/
def bracketIndicators : List Char := ",[]\x7b\x7d".toList

/-- Whether a plain scalar may begin here. -/
def beginsPlain (inBrackets : Bool) : List Char → Bool
  | [] => false
  | first :: rest =>
    !isBlank first && !isBreak first && !indicators.contains first ||
      first = '-' && !endsToken rest ||
      !inBrackets && (first = '?' || first = ':') && !endsToken rest

/-- Whether a plain scalar ends before `first`. -/
def endsPlain (inBrackets : Bool) (first : Char) (rest : List Char) : Bool :=
  first = ':' && endsToken rest || inBrackets && bracketIndicators.contains first

/-- Whether a colon stands between brackets where it can neither end nor continue a scalar. -/
def spoilsPlain (inBrackets : Bool) (first : Char) (rest : List Char) : Bool :=
  inBrackets && first = ':' &&
    rest.head?.any fun next => next = '?' || bracketIndicators.contains next

/-- Reads a plain scalar; `done` holds its characters so far, the last one first, and `gap` the
white space behind them. Outside brackets, lines below the first one have to be indented to the
column `indent`, and a key may begin where the scalar ends on a line of its own. -/
def readPlainFrom (inBrackets : Bool) (indent : Nat) (gap : Gap) (done : List Char)
    (cursor : Cursor) : List Char → Option (String × Cursor)
  | [] => some (String.ofList done.reverse, { cursor with rest := [], keyAllowed := gap.broken })
  | first :: rest =>
    let here := { cursor with rest := first :: rest, keyAllowed := gap.broken }
    if isBreak first then
      readPlainFrom inBrackets indent (gap.lineBreak first) done (cursor.newLine rest) rest
    else if isBlank first then
      if gap.broken && first = '\t' && cursor.column < indent then none
      else readPlainFrom inBrackets indent (gap.blank first) done (cursor.step rest) rest
    else
      let inGap := gap.broken || !gap.blanks.isEmpty
      if inGap && (!inBrackets && cursor.column < indent || here.atDocumentMarker || first = '#')
        || endsPlain inBrackets first rest then
        some (String.ofList done.reverse, here)
      else if spoilsPlain inBrackets first rest then none
      else
        readPlainFrom inBrackets indent .none (first :: (gap.folded ++ done)) (cursor.step rest)
          rest

/-- Reads the plain scalar that begins at a cursor. -/
def readPlain (inBrackets : Bool) (indent : Nat) (cursor : Cursor) : Option (String × Cursor) :=
  readPlainFrom inBrackets indent .none [] cursor cursor.rest

/-! ### Quoted scalars -/

/-- Where reading stands inside quotes. -/
inductive QuoteState where
  | text
  | escape
  /-- Before `missing` more digits of a character's number, which is `value` so far. -/
  | number (missing value : Nat)
  /-- Before the second one of two single quotes. -/
  | doubled

/-- The character that a backslash and a letter stand for. -/
def escaped? (letter : Char) : Option Char :=
  match letter with
  | '0' => some '\x00'
  | 'a' => some '\x07'
  | 'b' => some '\x08'
  | 't' | '\t' => some '\t'
  | 'n' => some '\n'
  | 'v' => some '\x0b'
  | 'f' => some '\x0c'
  | 'r' => some '\r'
  | 'e' => some '\x1b'
  | ' ' => some ' '
  | '"' => some '"'
  | '/' => some '/'
  | '\\' => some '\\'
  | 'N' => some '\x85'
  | '_' => some '\xa0'
  | 'L' => some '\u2028'
  | 'P' => some '\u2029'
  | _ => none

/-- The number of digits behind a backslash and a letter. -/
def digitCount? (letter : Char) : Option Nat :=
  match letter with
  | 'x' => some 2
  | 'u' => some 4
  | 'U' => some 8
  | _ => none

/-- The character with a number, if there is one. -/
def character? (code : Nat) : Option Char :=
  if code.isValidChar then some (Char.ofNat code) else none

/-- Reads a quoted scalar behind its opening quote; `done` holds its characters so far, the last
one first, and `gap` the white space behind them. -/
def readQuotedFrom (quote : Char) (state : QuoteState) (gap : Gap) (done : List Char)
    (cursor : Cursor) : List Char → Option (String × Cursor)
  | [] => none
  | first :: rest =>
    let next := cursor.step rest
    match state with
    | .doubled => readQuotedFrom quote .text .none (quote :: done) next rest
    | .number missing value =>
      match Number.digit? first with
      | none => none
      | some digit =>
        let code := value * 16 + digit
        if missing = 1 then
          match character? code with
          | none => none
          | some character => readQuotedFrom quote .text .none (character :: done) next rest
        else readQuotedFrom quote (.number (missing - 1) code) .none done next rest
    | .escape =>
      if isBreak first then
        readQuotedFrom quote .text .escapedBreak done (cursor.newLine rest) rest
      else
        match escaped? first, digitCount? first with
        | some character, _ => readQuotedFrom quote .text .none (character :: done) next rest
        | none, some count => readQuotedFrom quote (.number count 0) .none done next rest
        | none, none => none
    | .text =>
      if isBreak first then
        readQuotedFrom quote .text (gap.lineBreak first) done (cursor.newLine rest) rest
      else if isBlank first then readQuotedFrom quote .text (gap.blank first) done next rest
      else if { cursor with rest := first :: rest }.atDocumentMarker then none
      else
        let done := gap.folded ++ done
        if first = quote then
          if quote = '\'' && rest.head? = some '\'' then
            readQuotedFrom quote .doubled .none done next rest
          else some (String.ofList done.reverse, next.withoutKey)
        else if first = '\\' && quote = '"' then
          readQuotedFrom quote .escape .none done next rest
        else readQuotedFrom quote .text .none (first :: done) next rest

/-- Reads the scalar between quotes that begins at a cursor. -/
def readQuoted (cursor : Cursor) : Option (String × Cursor) :=
  match cursor.rest with
  | [] => none
  | quote :: rest => readQuotedFrom quote .text .none [] (cursor.step rest) rest

end SqlFixture.Settings
