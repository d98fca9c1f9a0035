import SqlFixture.FileTree
import SqlFixture.Glob.Match
import SqlFixture.Glob.Size
import SqlFixture.TestSet

/-
**Finding fixtures.**

A pattern without wildcards finds the file that it names. Any other one finds the files below its
root whose paths from there it matches; without a double asterisk it does not look deeper than it
has components. Files come in the order of their paths, name by name.

* `discover`: the files of a pattern;
* `TestSet.ofPattern`: the set of the tests in these files.
-/

namespace SqlFixture

/-- A file that a pattern finds. -/
structure FoundFile where
  /-- The path as it is told. -/
  path : String
  content : Bytes
deriving Repr, DecidableEq

namespace Discovery

/-- The pattern that is used if none is given. -/
def defaultPattern : String := "testdata/*.sql"

/-- Whether a root is the working directory itself, written with single dots. -/
def isHere (root : String) : Bool :=
  root.toList.head? != some '/' && (Path.parts root).all fun name => name = "" || name = "."

/-- How a path below a root is told. The working directory itself is not named. -/
def shown (root : String) (path : Path) : String :=
  if isHere root then path.joined
  else if root.toList.getLast? = some '/' then root ++ path.joined
  else root ++ "/" ++ path.joined

/-- Whether a path is within the depth that the components of a pattern can reach. -/
def withinDepth (components : List String) (path : Path) : Bool :=
  components.contains "**" || path.length ≤ components.length

/-- The files below a directory whose paths from there the pieces match. -/
def search (tree : FileTree) (root : String) (directory : Path) (components : List String)
    (pieces : List Glob.Piece) : List FoundFile :=
  ((tree.filesBelow directory).filter fun file =>
    withinDepth components file.1 && Glob.matchesText pieces file.1.joined).map fun file =>
      ⟨shown root file.1, file.2⟩

end Discovery

/-- The files of a pattern. A root that is no directory holds none, whatever stands behind it. -/
def discover (tree : FileTree) (pattern : String) : Except Glob.Fault (List FoundFile) :=
  match Glob.Pattern.parse pattern with
  | .path text => .ok ((tree.read? text).toList.map fun content => ⟨text, content⟩)
  | .search root components =>
    match tree.directory? root with
    | none => .ok []
    | some directory => do
      let pieces ← Glob.Piece.ofTexts components
      let pieces ← Glob.Piece.withinLimit pieces
      return Discovery.search tree root directory components pieces

namespace TestSet

/-- The set of the tests in the files of a pattern, each under the path of its file. -/
def ofPattern (config : Config) (tree : FileTree) (pattern : String) : Except SetError TestSet :=
  match discover tree pattern with
  | .error fault => .error (.pattern pattern fault)
  | .ok files => ofSources config (files.map fun file => ⟨file.path, .ok file.content⟩)

end TestSet

end SqlFixture
