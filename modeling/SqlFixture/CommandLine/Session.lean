import SqlFixture.CommandLine.Arguments
import SqlFixture.CommandLine.Listing
import SqlFixture.Settings

/-
**A run of the command line.**

A run reads a file tree and comes to an exit code, a text, and reports of what went wrong. Settings
are read before the command runs. Checking builds every fixture of the pattern, also behind one that
fails; showing builds one fixture. The lines are those that are written without colors; where colors
are written too, the marks and the totals stand between color codes.

* `Session.run`: the run that arguments ask for;
* `Session.check`, `Session.list`: the two commands;
* `Session.Outcome`: what a run comes to;
* `Session.settingsPath`, `Session.commandPath`: the part of a file tree that a run reads.
-/

namespace SqlFixture

/-- What is told about a failure. -/
structure Report where
  message : String
  diagnostic : Option Diagnostic
deriving Repr

/-- The codes of a report, the outermost first. -/
def Report.codes (report : Report) : List String :=
  report.diagnostic.toList.flatMap Diagnostic.codes

namespace Session

/-- What a run comes to. -/
structure Outcome where
  exitCode : Nat
  output : String
  reports : List Report

/-- A run that ends with a failure and writes nothing. -/
def failed (message : String) (diagnostic : Diagnostic) : Outcome :=
  ⟨1, "", [⟨message, some diagnostic⟩]⟩

/-! ### Checking -/

/-- A fixture with what building it comes to. -/
structure Checked where
  path : String
  result : Except BuildError Test

/-- Builds the fixture in a file. -/
def checkFile (config : Config) (file : FoundFile) : Checked :=
  ⟨file.path, Test.build config file.path file.content⟩

namespace Checked

/-- Whether the fixture builds. -/
def passes (checked : Checked) : Bool := checked.result.isOk

/-- The line on the fixture. -/
def line (checked : Checked) : String :=
  match checked.result with
  | .ok test => s!"✓ {checked.path} ({test.statements.length} statements)"
  | .error _ => s!"✗ {checked.path}"

/-- The report on a fixture that fails. -/
def report? (checked : Checked) : Option Report :=
  match checked.result with
  | .ok _ => none
  | .error failure => some ⟨failure.message, some failure.diagnostic⟩

end Checked

/-- The last line on a check. -/
def totals (passed failed : Nat) : String := s!"{passed} passed, {failed} failed"

/-- What checking comes to. -/
def checkOutcome (checked : List Checked) : Outcome :=
  let passed := checked.countP Checked.passes
  let failed := checked.length - passed
  ⟨if failed = 0 then 0 else 1,
    writtenLines (checked.map Checked.line ++ ["", totals passed failed]),
    checked.filterMap Checked.report?⟩

/-- Builds the fixtures of a pattern. -/
def check (tree : FileTree) (config : Config) (pattern : String) : Outcome :=
  match discover tree pattern with
  | .error fault =>
    let failure : SetError := .pattern pattern fault
    failed failure.message failure.diagnostic
  | .ok [] => failed SetError.empty.message SetError.empty.diagnostic
  | .ok files => checkOutcome (files.map (checkFile config))

/-! ### Showing -/

/-- The bytes of a file, or why they cannot be read. -/
def contentOf (tree : FileTree) (path : String) : Except String Bytes :=
  match tree.read? path with
  | some content => .ok content
  | none => .error "no such file"

/-- Tells the statements of a fixture. -/
def list (tree : FileTree) (config : Config) (path : String) (json : Bool) : Outcome :=
  match Test.buildFrom config path (contentOf tree path) with
  | .error failure => failed failure.message failure.diagnostic
  | .ok test =>
    ⟨0, if json then Json.listing test.summaries ++ "\n" else test.listing, []⟩

/-! ### Whole runs -/

/-- Runs a command under settings. -/
def runCommand (tree : FileTree) (settings : Settings) : Command → Outcome
  | .checkFixtures pattern limit =>
    check tree (settings.configFor limit) (settings.patternOr pattern)
  | .showFixture file json limit => list tree (settings.configFor limit) file json

/-- Reads the settings, then runs the command. -/
def runInvocation (tree : FileTree) (invocation : Invocation) : Outcome :=
  match Settings.load tree invocation.config with
  | .error failure => failed failure.message failure.diagnostic
  | .ok settings => runCommand tree settings invocation.command

/-- The settings file that an invocation reads, if it exists. -/
def settingsPath (invocation : Invocation) : String :=
  invocation.config.getD Settings.usualPath

/-- The file that a command reads, or the directory below which it reads files. -/
def commandPath (settings : Settings) : Command → String
  | .checkFixtures pattern _ =>
    match Glob.Pattern.parse (settings.patternOr pattern) with
    | .path text => text
    | .search root _ => root
  | .showFixture file _ _ => file

/-- The name and the version of the program. -/
def versionLine : String := "sqltest 0.1.0"

/-- How the program is called. -/
def usage : String :=
  writtenLines ["Usage: sqltest [--config <CONFIG>] <COMMAND>", "", "Commands:",
    "  check [PATTERN] [--limit <LIMIT>]", "  show <FILE> [--json] [--limit <LIMIT>]",
    "  help [COMMAND]"]

/-- The run of arguments that name no command to run. -/
def refuse (failure : ArgumentError) : Outcome :=
  match failure with
  | .version => ⟨failure.exitCode, versionLine ++ "\n", []⟩
  | .help => ⟨failure.exitCode, usage, []⟩
  | _ => ⟨failure.exitCode, "", [⟨usage, none⟩]⟩

/-- The run that arguments ask for. -/
def run (tree : FileTree) (arguments : List String) : Outcome :=
  match Invocation.parse arguments with
  | .error failure => refuse failure
  | .ok invocation => runInvocation tree invocation

end Session

end SqlFixture
