import SqlFixture.Dictionary
import SqlFixture.Path
import SqlFixture.Text.Utf8

/-
**Directories and files.**

A file tree holds files under paths from the root, and a directory in which relative paths begin.
Directories are those that are named, and all that hold something.

* `FileTree.resolve?`: the file or directory that a written path leads to;
* `FileTree.read?`: the bytes of a file;
* `FileTree.filesBelow`: the files below a directory, in the order of their paths.
-/

namespace SqlFixture

/-- Files with their bytes, directories, and the place where relative paths begin. -/
structure FileTree where
  files : Dictionary Path Bytes
  /-- Directories that need not hold anything. -/
  directories : List Path
  workingDirectory : Path

namespace FileTree

/-- Whether a path leads to a file. -/
def isFile (tree : FileTree) (path : Path) : Bool := tree.files.contains path

/-- Whether a path leads to a directory. -/
def isDirectory (tree : FileTree) (path : Path) : Bool :=
  path.isEmpty || path.isPrefixOf tree.workingDirectory ||
    tree.directories.any (fun directory => path.isPrefixOf directory) ||
    tree.files.keys.any fun file => (Path.below? path file).isSome

/-- The entry that a name leads to from `here`, which has to be a directory. -/
def step? (tree : FileTree) (here : Path) (name : String) : Option Path :=
  if !tree.isDirectory here then none
  else if name = "" || name = "." then some here
  else if name = ".." then some here.dropLast
  else
    let next := here ++ [name]
    if tree.isFile next || tree.isDirectory next then some next else none

/-- The entry that a written path leads to. A slash in front begins at the root. -/
def resolve? (tree : FileTree) (text : String) : Option Path :=
  match Path.parts text with
  | [""] => none
  | "" :: names => names.foldlM tree.step? []
  | names => names.foldlM tree.step? tree.workingDirectory

/-- The bytes of the file that a written path leads to. -/
def read? (tree : FileTree) (text : String) : Option Bytes :=
  (tree.resolve? text).bind tree.files.find?

/-- The directory that a written path leads to. -/
def directory? (tree : FileTree) (text : String) : Option Path :=
  (tree.resolve? text).filter tree.isDirectory

/-- The files below a directory: their paths from there, in order, and their bytes. -/
def filesBelow (tree : FileTree) (directory : Path) : List (Path × Bytes) :=
  tree.files.entries.filterMap fun entry =>
    (Path.below? directory entry.1).map fun path => (path, entry.2)

end FileTree

end SqlFixture
