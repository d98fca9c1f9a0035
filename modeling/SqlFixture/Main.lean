import SqlFixture.CommandLine.Session

/-
**The program.** Takes the part of the file tree that the arguments ask for from the disk, runs the
command line on it, and writes what the run comes to.
-/

namespace SqlFixture.Program

/-- The names on the way to a place on the disk. -/
def namesOf (place : String) : Path := (Path.parts place).filter (· != "")

/-- Adds what stands on the disk at a place, and below it. -/
partial def addBelow (tree : FileTree) (place : String) : IO FileTree := do
  let real ← IO.FS.realPath place
  let path := namesOf real.toString
  if ← real.isDir then
    let known := { tree with directories := path :: tree.directories }
    let entries ← real.readDir
    entries.foldlM (fun tree entry => addBelow tree entry.path.toString) known
  else if ← real.pathExists then
    let content ← IO.FS.readBinFile real
    return { tree with files := tree.files.insert path content.toList }
  else
    return tree

/-- Adds the directories that a written path passes through, and all that it leads to. -/
def addPath (tree : FileTree) (text : String) : IO FileTree := do
  let parts := Path.parts text
  let passed ← (List.range parts.length).foldlM (fun tree count => do
    let beginning := "/".intercalate (parts.take count)
    try
      let real ← IO.FS.realPath beginning
      if ← real.isDir then
        return { tree with directories := namesOf real.toString :: tree.directories }
      else
        return tree
    catch _ => return tree) tree
  try addBelow passed text
  catch _ => return passed

/-- The part of the file tree that the arguments ask for. -/
def treeFor (arguments : List String) : IO FileTree := do
  let here ← IO.currentDir
  let start : FileTree := ⟨.empty, [], namesOf here.toString⟩
  match Invocation.parse arguments with
  | .error _ => return start
  | .ok invocation =>
    let known ← addPath start (Session.settingsPath invocation)
    match Settings.load known invocation.config with
    | .error _ => return known
    | .ok settings => addPath known (Session.commandPath settings invocation.command)

end SqlFixture.Program

/-- Runs the command line. -/
def main (arguments : List String) : IO UInt32 := do
  let tree ← SqlFixture.Program.treeFor arguments
  let outcome := SqlFixture.Session.run tree arguments
  IO.print outcome.output
  for report in outcome.reports do
    for code in report.codes do
      IO.eprintln code
    IO.eprintln report.message
  return outcome.exitCode.toUInt32
