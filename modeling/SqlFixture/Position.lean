import SqlFixture.Text.Utf8

/-
**Places in a fixture.**

A position counts the newlines and the bytes before a place. Positions of neighbouring stretches
add up, so that a place found in a remainder becomes a place in the whole fixture.

* `Position.advance`: a position after one more byte;
* `Position.ofBytes`: the position at the end of a stretch, `ofBytes_append` its sum rule;
* `Position.order`: the order of two positions, line before index;
* `Position.span`: the byte range between two positions, never of negative length.
-/

namespace SqlFixture

/-- A place: the number of newlines and the number of bytes before it. -/
@[ext]
structure Position where
  /-- Newlines before the place. -/
  line : Nat
  /-- Bytes before the place. -/
  index : Nat
deriving Repr, DecidableEq, Inhabited

/-- The newline byte. -/
def newline : UInt8 := 0x0A

namespace Position

/-- The place before the first byte. -/
def start : Position := ⟨0, 0⟩

/-- The place after stepping over `first` and then over `second`. -/
instance : Add Position where
  add first second := ⟨first.line + second.line, first.index + second.index⟩

@[simp] theorem add_line (first second : Position) :
    (first + second).line = first.line + second.line := rfl

@[simp] theorem add_index (first second : Position) :
    (first + second).index = first.index + second.index := rfl

@[simp] theorem start_line : start.line = 0 := rfl

@[simp] theorem start_index : start.index = 0 := rfl

@[simp] theorem start_add (position : Position) : start + position = position := by
  ext <;> simp

@[simp] theorem add_start (position : Position) : position + start = position := by
  ext <;> simp

theorem add_assoc (first second third : Position) :
    first + second + third = first + (second + third) := by
  ext <;> simp [Nat.add_assoc]

/-- The position after one more byte. -/
def advance (position : Position) (byte : UInt8) : Position :=
  ⟨if byte = newline then position.line + 1 else position.line, position.index + 1⟩

/-- The position at the end of `bytes`. -/
def ofBytes (bytes : Bytes) : Position := ⟨bytes.count newline, bytes.length⟩

@[simp] theorem ofBytes_nil : ofBytes [] = start := rfl

theorem ofBytes_append (first second : Bytes) :
    ofBytes (first ++ second) = ofBytes first + ofBytes second := by
  ext <;> simp [ofBytes]

theorem advance_eq (position : Position) (byte : UInt8) :
    position.advance byte = position + ofBytes [byte] := by
  ext
  · by_cases ends : byte = newline <;> simp [advance, ofBytes, ends]
  · rfl

/-- The line as people count it, from one. -/
def displayLine (position : Position) : Nat := position.line + 1

/-- Orders by line, then by index. -/
def order (first second : Position) : Ordering :=
  (compare first.line second.line).then (compare first.index second.index)

/-- Offset and length of the bytes from `left` to `right`; empty where `right` lies before. -/
def span (left right : Position) : Nat × Nat :=
  (left.index, max right.index left.index - left.index)

end Position

end SqlFixture
