import SqlFixture.Settings.Property
import SqlFixture.Settings.Scalar

/-
**Tokens of a settings text.**

A settings text says with signs and with indentation where mappings, keys and values begin. Its
tokens are scalars with their anchors and tags, and one token for each such beginning and end.

* `Token`: the tokens;
* `Token.endsContent`: which of them may not stand in the content of a document.
-/

namespace SqlFixture.Settings

/-- A token of a settings text. -/
inductive Token where
  | version (major minor : Nat)
  | handle (name : String) (beginning : Bytes)
  | documentStart
  | documentEnd
  | mappingStart
  | mappingEnd
  | braceOpen
  | braceClose
  | comma
  | key
  | value
  /-- A name in place of what has it. -/
  | reference (name : String)
  /-- A name for what stands behind it. -/
  | anchor (name : String)
  /-- A tag for what stands behind it. -/
  | tag (tag : Tag)
  | scalar (text : String) (style : ScalarStyle)
deriving Repr, DecidableEq

namespace Token

/-- Whether a token stands in front of the marker of a document. -/
def isDirective : Token → Bool
  | version .. | handle .. => true
  | _ => false

/-- Whether the content of a document ends before a token. -/
def endsContent (token : Token) : Bool :=
  token.isDirective || token = documentStart || token = documentEnd

end Token

end SqlFixture.Settings
