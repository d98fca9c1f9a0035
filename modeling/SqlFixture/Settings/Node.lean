import SqlFixture.Settings.Token

/-
**Keys and values.**

A node is what stands as a key or as a value: a scalar, possibly with an anchor and a tag in either
order, or the name of another node. Where nothing is written, it is an empty plain scalar.

* `Properties.take`: anchor and tag in front of tokens;
* `Node.ofTokens`: the node that tokens make up;
* `entryOfTokens`: the key and the value that tokens make up.
-/

namespace SqlFixture.Settings

/-- Anchor and tag in front of something. -/
structure Properties where
  anchor : Option String
  tag : Option Bytes
deriving Repr, DecidableEq

/-- Takes anchor and tag off the front of tokens; each of them may stand once, in either order. -/
def Properties.take (handles : TagHandles) : List Token → Option (Properties × List Token)
  | .anchor name :: .tag tag :: rest | .tag tag :: .anchor name :: rest =>
    (tag.full handles).map fun full => (⟨some name, some full⟩, rest)
  | .anchor name :: rest => some (⟨some name, none⟩, rest)
  | .tag tag :: rest => (tag.full handles).map fun full => (⟨none, some full⟩, rest)
  | tokens => some (⟨none, none⟩, tokens)

/-- A key or a value. -/
inductive Node where
  | reference (name : String)
  | scalar (anchor : Option String) (scalar : Scalar)
deriving Repr, DecidableEq

namespace Node

/-- Where nothing is written. -/
def absent : Node := .scalar none ⟨"", .plain, none⟩

/-- The node that tokens make up. -/
def ofTokens (handles : TagHandles) (tokens : List Token) : Option Node :=
  match tokens with
  | [.reference name] => some (.reference name)
  | _ => do
    let (properties, rest) ← Properties.take handles tokens
    match rest with
    | [] => some (.scalar properties.anchor ⟨"", .plain, properties.tag⟩)
    | [.scalar text style] => some (.scalar properties.anchor ⟨text, style, properties.tag⟩)
    | _ => none

@[simp] theorem ofTokens_nil (handles : TagHandles) : ofTokens handles [] = some absent := rfl

@[simp] theorem ofTokens_scalar (handles : TagHandles) (text : String) (style : ScalarStyle) :
    ofTokens handles [.scalar text style] = some (.scalar none ⟨text, style, none⟩) := rfl

end Node

/-- The key and the value that tokens make up, with a sign between them; without a sign, nothing is
written as the value. -/
def entryOfTokens (handles : TagHandles) (tokens : List Token) : Option (Node × Node) :=
  match tokens.splitOn .value with
  | [key] => (Node.ofTokens handles key).map (·, .absent)
  | [key, value] => do
    let key ← Node.ofTokens handles key
    let value ← Node.ofTokens handles value
    return (key, value)
  | _ => none

end SqlFixture.Settings
