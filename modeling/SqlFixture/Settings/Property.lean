import SqlFixture.Settings.Cursor
import SqlFixture.Text.Number
import SqlFixture.Text.Utf8

/-
**Names and tags.**

An anchor `&name` names what stands behind it, and `*name` stands for what has that name. A tag
tells the type of what stands behind it: in angle brackets in full, otherwise with a handle for its
beginning. Tags are byte strings, since a percent sign and two digits give any byte in them.

* `readName`: the name behind `&` or `*`;
* `readTag`: the tag behind `!`, as it is written;
* `tagBytes`: the bytes of a tag's characters, which are the characters themselves if no percent
  sign is among them (`tagBytes_eq_map`);
* `Tag.full`: a tag in full, by what the handles stand for.
-/

namespace SqlFixture.Settings

/-- Reads the name of an anchor or alias behind its sign. -/
def readName (cursor : Cursor) : Option (String × Cursor) :=
  let name := cursor.rest.takeWhile isWord
  let behind := cursor.drop name.length
  if name.isEmpty then none
  else if endsToken behind.rest ||
      behind.rest.head?.any (fun next => "?:,]\x7d%@`".toList.contains next) then
    some (String.ofList name, behind.withoutKey)
  else none

/-! ### Tags -/

/-- A tag as it is written. -/
structure Tag where
  /-- What stands for its beginning, unless it is written in full. -/
  handle : Option String
  ending : Bytes
deriving Repr, DecidableEq

/-- What tag handles stand for. -/
abbrev TagHandles := List (String × Bytes)

/-- The beginning of the tags for the usual types. -/
def standardTag : Bytes := asciiBytes "tag:yaml.org,2002:"

/-- The tag of no value. -/
def nullTag : Bytes := standardTag ++ asciiBytes "null"

/-- The tag of numbers. -/
def numberTag : Bytes := standardTag ++ asciiBytes "int"

/-- The tag that names no type. -/
def openTag : Bytes := asciiBytes "!"

/-- The handles that need no directive. -/
def TagHandles.standard : TagHandles := [("!", openTag), ("!!", standardTag)]

/-- The tag in full, if its handle stands for something. -/
def Tag.full (handles : TagHandles) (tag : Tag) : Option Bytes :=
  match tag.handle with
  | none => some tag.ending
  | some handle => (handles.lookup handle).map (· ++ tag.ending)

/-! ### Characters of tags -/

/-- Whether a character may stand in a tag. -/
def isTagCharacter (inBrackets : Bool) (character : Char) : Bool :=
  isWord character || ";/?:@&=+$.!~*'()%".toList.contains character ||
    inBrackets && ",[]".toList.contains character

/-- How many bytes of a character follow a first one, as its highest bits tell. -/
def followers? (first : Nat) : Option Nat :=
  if first < 0x80 then some 0
  else if first < 0xC0 then none
  else if first < 0xE0 then some 1
  else if first < 0xF0 then some 2
  else if first < 0xF8 then some 3
  else none

/-- How many bytes of a character are missing behind `byte`, if `missing` ones were missing before
it: a first byte tells their number, and the others lie from 0x80 to 0xBF. -/
def missingAfter? (byte : Nat) : (missing : Nat) → Option Nat
  | 0 => followers? byte
  | missing + 1 => if 0x80 ≤ byte && byte < 0xC0 then some missing else none

/-- The bytes of a tag's characters, where a percent sign and two digits give a byte. Bytes that are
given so come in groups of the length that their first one tells, of which `missing` are still to
come; a group need not be a character. -/
def tagBytes : (missing : Nat) → List Char → Option Bytes
  | missing, '%' :: high :: low :: rest => do
    let first ← Number.digit? high
    let second ← Number.digit? low
    let left ← missingAfter? (first * 16 + second) missing
    let bytes ← tagBytes left rest
    return UInt8.ofNat (first * 16 + second) :: bytes
  | 0, [] => some []
  | 0, character :: rest =>
    if character = '%' then none
    else (tagBytes 0 rest).map (UInt8.ofNat character.toNat :: ·)
  | _ + 1, _ => none

/-- Without percent signs, a tag's bytes are its characters. -/
theorem tagBytes_eq_map {text : List Char} (plain : '%' ∉ text) :
    tagBytes 0 text = some (text.map fun character => UInt8.ofNat character.toNat) := by
  induction text with
  | nil => rfl
  | cons character rest ih =>
    have other : character ≠ '%' := fun equal => plain (equal ▸ List.mem_cons_self)
    have later : '%' ∉ rest := fun member => plain (List.mem_cons_of_mem _ member)
    unfold tagBytes
    split
    · next equal => exact absurd (List.cons.inj equal).1 other
    · next equal => exact absurd equal (List.cons_ne_nil _ _)
    · next equal =>
      obtain ⟨rfl, rfl⟩ := List.cons.inj equal
      simp [other, ih later]
    · simp_all

/-- What is told by bytes up to the first NUL. -/
def upToNul (bytes : Bytes) : Bytes := bytes.takeWhile (· ≠ 0)

/-- Reads characters of a tag: the bytes that they stand for and the cursor behind them. -/
def readTagBytes (inBrackets : Bool) (cursor : Cursor) : Option (Bytes × Cursor) :=
  let text := cursor.rest.takeWhile (isTagCharacter inBrackets)
  (tagBytes 0 text).map fun bytes => (bytes, cursor.drop text.length)

/-! ### Forms of tags -/

/-- Reads a tag behind its exclamation mark, without what has to follow it. -/
def readTagBody (cursor : Cursor) : Option (Tag × Cursor) :=
  match cursor.rest with
  | '<' :: rest => do
    let (bytes, behind) ← readTagBytes true (cursor.step rest)
    if bytes.isEmpty then none
    else if behind.rest.head? = some '>' then some (⟨none, upToNul bytes⟩, behind.drop 1)
    else none
  | rest =>
    let word := rest.takeWhile isWord
    match rest.drop word.length with
    | '!' :: _ => do
      let (bytes, behind) ← readTagBytes false (cursor.drop (word.length + 1))
      if bytes.isEmpty then none
      else some (⟨some (String.ofList ('!' :: word ++ ['!'])), upToNul bytes⟩, behind)
    | _ => do
      let (bytes, behind) ← readTagBytes false cursor
      if (upToNul bytes).isEmpty then some (⟨none, openTag⟩, behind)
      else some (⟨some "!", upToNul bytes⟩, behind)

/-- Reads a tag behind its exclamation mark. A blank has to follow it, or between brackets a
comma. -/
def readTag (inBrackets : Bool) (cursor : Cursor) : Option (Tag × Cursor) := do
  let (tag, behind) ← readTagBody cursor
  if endsToken behind.rest || inBrackets && behind.rest.head? = some ',' then
    return (tag, behind.withoutKey)
  else none

end SqlFixture.Settings
