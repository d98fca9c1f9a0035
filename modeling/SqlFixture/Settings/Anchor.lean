import SqlFixture.Settings.Node

/-
**What names stand for.**

An anchor takes as its number how many names there are before it. A name that is given again takes
a new number, which is then also the number of the next new name. A name stands for the last node
that has the name's number in the whole document, where the number is the one that the name has at
the place of the alias.

* `Anchors.add`: one more anchor;
* `Anchors.target?`: the scalar that a number stands for;
* `resolve`: the entries of a mapping with scalars in place of names.
-/

namespace SqlFixture.Settings

/-- A key with its value. -/
abbrev Entry := Scalar × Scalar

/-- The anchors up to a place in a document. -/
structure Anchors where
  numbers : List (String × Nat)
  /-- What has each number, the last node first; a mapping is no scalar. -/
  targets : List (Nat × Option Scalar)

namespace Anchors

/-- No anchors. -/
def empty : Anchors := ⟨[], []⟩

/-- Adds an anchor on a scalar or on a mapping. -/
def add (anchors : Anchors) (name : String) (target : Option Scalar) : Anchors :=
  let number := anchors.numbers.length
  ⟨(name, number) :: anchors.numbers.filter (·.1 ≠ name), (number, target) :: anchors.targets⟩

/-- Adds an anchor, if there is one. -/
def addOption (anchors : Anchors) (name : Option String) (target : Option Scalar) : Anchors :=
  match name with
  | none => anchors
  | some name => anchors.add name target

/-- The number that a name has. -/
def number? (anchors : Anchors) (name : String) : Option Nat := anchors.numbers.lookup name

/-- The scalar that a number stands for. -/
def target? (anchors : Anchors) (number : Nat) : Option Scalar :=
  (anchors.targets.lookup number).join

/-- A name that is given has the number of names before it. -/
theorem number?_add (anchors : Anchors) (name : String) (target : Option Scalar) :
    (anchors.add name target).number? name = some anchors.numbers.length := by
  simp [number?, add]

/-- The last node with a number is what the number stands for. -/
theorem target?_add (anchors : Anchors) (name : String) (target : Option Scalar) :
    (anchors.add name target).target? anchors.numbers.length = target := by
  simp [target?, add]

end Anchors

/-- A node with a number in place of a name. -/
inductive NumberedNode where
  | reference (number : Nat)
  | scalar (scalar : Scalar)

/-- Puts a number in place of a name, which has to be known, and adds the anchor of a scalar. -/
def Node.number (anchors : Anchors) : Node → Option (NumberedNode × Anchors)
  | .reference name => (anchors.number? name).map fun number => (.reference number, anchors)
  | .scalar anchor written => some (.scalar written, anchors.addOption anchor (some written))

/-- The scalar that a node is or refers to. -/
def NumberedNode.scalar? (anchors : Anchors) : NumberedNode → Option Scalar
  | .reference number => anchors.target? number
  | .scalar written => some written

/-- Puts numbers in place of the names in entries, from the first entry to the last one. -/
def numberEntries (anchors : Anchors) :
    List (Node × Node) → Option (List (NumberedNode × NumberedNode) × Anchors)
  | [] => some ([], anchors)
  | (key, value) :: rest => do
    let (key, afterKey) ← key.number anchors
    let (value, afterValue) ← value.number afterKey
    let (entries, last) ← numberEntries afterValue rest
    return ((key, value) :: entries, last)

/-- The entries of a mapping, where each name is replaced by what it stands for; `anchor` is the
name of the mapping itself. -/
def resolve (anchor : Option String) (entries : List (Node × Node)) : Option (List Entry) := do
  let (numbered, anchors) ← numberEntries (Anchors.empty.addOption anchor none) entries
  numbered.mapM fun (key, value) => do
    let key ← key.scalar? anchors
    let value ← value.scalar? anchors
    return (key, value)

end SqlFixture.Settings
