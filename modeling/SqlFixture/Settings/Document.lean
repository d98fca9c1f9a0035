import SqlFixture.Settings.Anchor
import SqlFixture.Settings.Layout

/-
**Settings documents.**

A settings document is one mapping from scalars to scalars, indented or in braces, possibly with
directives and a marker in front, a marker behind, and comments anywhere. A document without content
is the empty mapping. Whatever nests deeper is no settings document.

* `Mapping.ofTokens`: the mapping that tokens make up;
* `Document.read`: the entries of a document in order, as keys and values.
-/

namespace SqlFixture.Settings

/-! ### Mappings -/

/-- A mapping with names that still stand for nodes. -/
structure Mapping where
  anchor : Option String
  entries : List (Node × Node)

namespace Mapping

/-- The entries that the tokens of an indented mapping make up: each one begins with a key. -/
def indentedEntries (handles : TagHandles) (tokens : List Token) : Option (List (Node × Node)) :=
  match tokens.splitOn .key with
  | [] :: parts => parts.mapM (entryOfTokens handles)
  | _ => none

/-- The entry that tokens between commas make up: behind the sign of a key it may lack the key or
the value, without the sign it lacks the value. -/
def bracedEntry (handles : TagHandles) : List Token → Option (Node × Node)
  | [] => none
  | .key :: rest => entryOfTokens handles rest
  | tokens => (Node.ofTokens handles tokens).map (·, .absent)

/-- The entries that the tokens between braces make up. A comma may stand behind the last one. -/
def bracedEntries (handles : TagHandles) (tokens : List Token) : Option (List (Node × Node)) :=
  let parts := tokens.splitOn .comma
  (if parts.getLast? = some [] then parts.dropLast else parts).mapM (bracedEntry handles)

/-- The mapping that tokens make up. -/
def ofTokens (handles : TagHandles) (tokens : List Token) : Option Mapping := do
  let (properties, rest) ← Properties.take handles tokens
  let entries ← match rest with
    | [] => some []
    | first :: inside =>
      if first = .mappingStart && inside.getLast? = some .mappingEnd then
        indentedEntries handles inside.dropLast
      else if first = .braceOpen && inside.getLast? = some .braceClose then
        bracedEntries handles inside.dropLast
      else none
  return ⟨properties.anchor, entries⟩

@[simp] theorem ofTokens_nil (handles : TagHandles) : ofTokens handles [] = some ⟨none, []⟩ := rfl

@[simp] theorem ofTokens_braces (handles : TagHandles) :
    ofTokens handles [.braceOpen, .braceClose] = some ⟨none, []⟩ := rfl

end Mapping

/-! ### The whole document -/

namespace Document

/-- The entries of the document whose content begins with `tokens`. Behind the content, only
markers of its end may stand. -/
def readContent (handles : TagHandles) (tokens : List Token) : Option (List Entry) := do
  let content := tokens.takeWhile fun token => !token.endsContent
  if (tokens.drop content.length).any (· ≠ .documentEnd) then none
  let mapping ← Mapping.ofTokens handles content
  resolve mapping.anchor mapping.entries

/-- The entries of the document that tokens make up. A marker has to stand between directives and
content; without a marker, there has to be content, or no token at all. -/
def ofTokens (tokens : List Token) : Option (List Entry) := do
  let directives := tokens.takeWhile Token.isDirective
  let prologue ← Prologue.ofTokens directives
  match tokens.drop directives.length with
  | .documentStart :: content => readContent prologue.allHandles content
  | [] => if directives.isEmpty then some [] else none
  | first :: rest =>
    if directives.isEmpty && first ≠ .documentEnd then
      readContent prologue.allHandles (first :: rest)
    else none

/-- The entries of a text that is one settings document. -/
def read (text : String) : Option (List Entry) := (Token.scan text).bind ofTokens

@[simp] theorem ofTokens_nil : ofTokens [] = some [] := rfl

/-- A block may begin at the column of the mapping, and each line may begin with a byte order
mark. -/
example : read "\ufefflimit:\n\ufeff|-\n  5\n" =
    some [(⟨"limit", .plain, none⟩, ⟨"5", .literal, none⟩)] := by decide +kernel

/-- The second `a` has the number of `b`, so that `a` stands for what `b` names. -/
example : read "&a limit: &a 5\n&b pattern: *a" =
    some [(⟨"limit", .plain, none⟩, ⟨"5", .plain, none⟩),
      (⟨"pattern", .plain, none⟩, ⟨"pattern", .plain, none⟩)] := by decide +kernel

/-- A mapping inside a mapping is refused. -/
example : read "limit: \x7bpattern: 5\x7d" = none := by decide +kernel

end Document

end SqlFixture.Settings
