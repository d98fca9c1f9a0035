import SqlFixture.Glob.Extent
import SqlFixture.Glob.Pattern
import SqlFixture.Text.Utf8

/-
**How large a pattern is.**

The size of a pattern is measured on the automata that match it byte by byte: one reads a text from
its beginning and one from its end. A state takes the same room wherever it stands; one that branches
takes a little more for each way that leaves it. A pattern is refused if one of its automata takes
more than ten mebibytes.

Forward, the forms of a class are read through states that forms with the same end share. Backward,
they are read through states that forms with the same beginning share.

* `Size.ofForms`: the size of a class whose characters have given forms;
* `Piece.size`: the size of each piece, and `Size.ofPieces`: that of a pattern;
* `Piece.withinLimit`: the pieces, if they are not too large.
-/

namespace SqlFixture.Glob

/-- The room that the automata of something take, in bytes. -/
structure Size where
  /-- The room of the automaton that reads forward. -/
  forward : Nat
  /-- The room of the automaton that reads backward. -/
  backward : Nat
deriving Repr, DecidableEq

namespace Size

/-- Two parts of a pattern stand beside each other. -/
instance : Add Size := ⟨fun first second =>
  ⟨first.forward + second.forward, first.backward + second.backward⟩⟩

/-- The room of a state. -/
def stateRoom : Nat := 32

/-- The room that a range of bytes takes at the state that branches by it. -/
def branchRoom : Nat := 8

/-- The room that a way takes at a state from which ways lead on without a byte. -/
def wayRoom : Nat := 4

/-- The size of states that do not branch. -/
def ofStates (count : Nat) : Size := ⟨stateRoom * count, stateRoom * count⟩

/-- The size of something that may be read again and again: two ways lead on behind it. -/
def repeated (size : Size) : Size :=
  size + ⟨stateRoom + wayRoom * 2, stateRoom + wayRoom * 2⟩

/-! ### Forms of bytes -/

/-- Forms in increasing order, divided by their first range of bytes. -/
def branches (forms : List ByteForm) : List (List ByteForm) :=
  forms.splitBy fun first second => first.head? == second.head?

/-- What is left of forms at each place where one may branch: the forms themselves, then what stands
behind each of their first ranges. No form has more than `places` places. -/
def remainders : (places : Nat) → List ByteForm → List (List ByteForm)
  | 0, _ => []
  | places + 1, forms =>
    if forms = [[]] then []
    else forms :: (branches forms).flatMap fun branch => remainders places (branch.map List.tail)

/-- The size of a class whose characters have the forms. -/
def ofForms (forms : List ByteForm) : Size :=
  let left := remainders 4 forms
  let count (rest : List ByteForm) : Nat := (branches rest).length
  let total (rooms : List Nat) : Nat := rooms.foldr (· + ·) 0
  ⟨stateRoom + total (left.eraseDups.map fun rest => stateRoom + branchRoom * count rest),
    stateRoom * 2 + wayRoom * forms.length + stateRoom * total (left.map count)⟩

/-- The size of a class whose characters make up ranges that do not touch. -/
def ofRanges (ranges : List CodeRange) : Size :=
  match ranges with
  | [] => ofStates 2
  | [⟨first, last⟩] =>
    if first = last then ofStates (Utf8.encodeCode first).length
    else ofSeveral ranges
  | _ => ofSeveral ranges
where
  /-- The size of a class of several characters. -/
  ofSeveral (ranges : List CodeRange) : Size :=
    if ranges.all fun range => range.last < 0x80 then
      ofStates 2 + ⟨branchRoom * ranges.length, branchRoom * ranges.length⟩
    else ofForms (ranges.flatMap CodeRange.byteForms)

/-! ### Pieces -/

/-- The size of a character. -/
def ofCharacter (character : Char) : Size := ofStates (Utf8.width character)

/-- The size of any character but one. -/
def ofOther (character : Char) : Size :=
  ofRanges (CharClass.complement (.ranges [(character, character)])).extent

/-- The size of any character in a name. -/
def nameCharacter : Size := ofOther '/'

/-- The size of any character in a line. -/
def lineCharacter : Size := ofOther '\n'

end Size

/-- The size of a piece. A directory name is a character that is repeated, with the slash behind. -/
def Piece.size : Piece → Size
  | .character value => .ofCharacter value
  | .anyCharacter => .nameCharacter
  | .anyRun => Size.nameCharacter.repeated
  | .oneOf set => .ofRanges set.extent
  | .directories => (Size.nameCharacter.repeated + .ofCharacter '/').repeated
  | .anyLine => Size.lineCharacter.repeated

namespace Size

/-- The size of what stands around the pieces: both ends of the text, the beginning and the end of the
automaton, and forward the beginning and the end of what is found. -/
def frame : Size := ⟨stateRoom * 6, stateRoom * 4⟩

/-- The size of pieces as a pattern. -/
def ofPieces (pieces : List Piece) : Size :=
  pieces.foldr (fun piece size => piece.size + size) frame

/-- The room that an automaton may take. -/
def limit : Nat := 10 * 1024 * 1024

/-- Whether both automata have room. -/
def fits (size : Size) : Bool := size.forward ≤ limit && size.backward ≤ limit

end Size

/-- The pieces, if they are not too large. -/
def Piece.withinLimit (pieces : List Piece) : Except Fault (List Piece) :=
  if (Size.ofPieces pieces).fits then .ok pieces else .error .tooLarge

theorem Piece.withinLimit_eq_ok_iff {pieces passed : List Piece} :
    withinLimit pieces = .ok passed ↔ (Size.ofPieces pieces).fits ∧ pieces = passed := by
  rw [withinLimit]
  split <;> simp [*]

end SqlFixture.Glob
