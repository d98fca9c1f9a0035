import SqlFixture.Settings.Token

/-
**Directives in front of a document.**

A line that begins with a percent sign tells the version that a text follows, or what a tag handle
stands for.

* `readDirective`: the token of such a line;
* `Prologue.ofTokens`: what the directives of a document say together, unless one of them is told
  twice or tells another version.
-/

namespace SqlFixture.Settings

/-! ### One line -/

/-- The number at the beginning of a text, of one to nine digits. -/
def readVersionPart (text : List Char) : Option (Nat × List Char) :=
  let digits := text.takeWhile Char.isDigit
  if digits.isEmpty || 9 < digits.length then none
  else
    let number := digits.foldl (fun value digit => value * 10 + (digit.toNat - '0'.toNat)) 0
    some (number, text.drop digits.length)

/-- Reads a version; the second part is what stands behind it. -/
def readVersion (text : List Char) : Option (Token × List Char) := do
  let (major, behind) ← readVersionPart (text.dropWhile isBlank)
  if behind.head? ≠ some '.' then none
  let (minor, last) ← readVersionPart behind.tail
  return (.version major minor, last)

/-- Reads a handle and what it stands for; the second part is what stands behind them. -/
def readHandle (text : List Char) : Option (Token × List Char) :=
  match text.dropWhile isBlank with
  | '!' :: rest => do
    let word := rest.takeWhile isWord
    let afterWord := rest.drop word.length
    let isClosed := afterWord.head? = some '!'
    if !isClosed && !word.isEmpty then none
    let handle := '!' :: word ++ (if isClosed then ['!'] else [])
    let behind := if isClosed then afterWord.tail else afterWord
    if !behind.head?.any isBlank then none
    let (bytes, last) ← readTagBytes true ⟨behind.dropWhile isBlank, 0, 0, 0, false⟩
    if bytes.isEmpty || !endsToken last.rest then none
    return (.handle (String.ofList handle) (upToNul bytes), last.rest)
  | _ => none

/-- Whether only blanks and a comment are left of a line. -/
def endsLine (line : List Char) : Bool :=
  match line.dropWhile isBlank with
  | [] => true
  | first :: _ => first = '#'

/-- Reads the directive on the line that begins at a cursor, with the end of the line. -/
def readDirective (cursor : Cursor) : Option (Token × Cursor) := do
  let line := cursor.rest.takeWhile fun character => !isBreak character
  let name := line.tail.takeWhile isWord
  let operands := line.tail.drop name.length
  if name.isEmpty || !endsToken operands then none
  let (token, last) ←
    if name = "YAML".toList then readVersion operands
    else if name = "TAG".toList then readHandle operands
    else none
  if !endsLine last then none
  let behind := (cursor.drop line.length).withoutKey
  return (token, behind.newLine behind.rest.tail)

/-! ### All of them -/

/-- What the directives in front of a document say. -/
structure Prologue where
  hasVersion : Bool
  handles : TagHandles

namespace Prologue

/-- Adds a directive. Each one may stand once, and the version has to be 1.1 or 1.2. -/
def add (prologue : Prologue) : Token → Option Prologue
  | .version major minor =>
    if prologue.hasVersion || major ≠ 1 || minor ≠ 1 && minor ≠ 2 then none
    else some { prologue with hasVersion := true }
  | .handle name beginning =>
    if (prologue.handles.lookup name).isSome then none
    else some { prologue with handles := (name, beginning) :: prologue.handles }
  | _ => none

/-- What directives say together. -/
def ofTokens (directives : List Token) : Option Prologue := directives.foldlM add ⟨false, []⟩

/-- All handles; told ones go before the standard ones. -/
def allHandles (prologue : Prologue) : TagHandles := prologue.handles ++ TagHandles.standard

end Prologue

end SqlFixture.Settings
