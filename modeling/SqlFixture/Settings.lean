import SqlFixture.Build
import SqlFixture.Discovery
import SqlFixture.Settings.Document

/-
**Settings of the command line.**

A settings file may give the pattern of the fixtures and the limit of their reading. Other keys are
refused, and so is a key that stands twice. What the command line says goes before the file, and the
file goes before what is usual.

* `Settings.parse`: the settings in a text;
* `Settings.load`: the settings in the file that is asked for, or in the usual one if it exists;
* `Settings.patternOr`, `Settings.configFor`: what is in force.
-/

namespace SqlFixture

/-- What a settings file gives. -/
structure Settings where
  pattern : Option String
  limit : Option Nat
deriving Repr, DecidableEq

/-- Why there are no settings. -/
inductive SettingsError where
  | unreadable (path : String)
  | malformed (path : String)
deriving Repr, DecidableEq

namespace SettingsError

/-- One line for people. -/
def message : SettingsError → String
  | unreadable path => "failed to read config file " ++ path
  | malformed path => "invalid config file " ++ path

/-- The code under which tools know the failure. -/
def diagnostic : SettingsError → Diagnostic
  | unreadable _ => .report "sqltest::config::io" none [] none
  | malformed _ => .report "sqltest::config::yaml" none [] none

end SettingsError

namespace Settings

/-- No settings. -/
def none : Settings := ⟨.none, .none⟩

/-! ### Values -/

/-- The spellings of the value that stands for no value. -/
def isNullWord (text : String) : Bool :=
  text = "null" || text = "Null" || text = "NULL" || text = "~"

/-- The scalar of a value that may be absent: `none` if the scalar is neither a value nor a
spelling of no value. -/
def optional (scalar : Scalar) : Option (Option Scalar) :=
  if scalar.style ≠ .plain then some (some scalar)
  else
    match scalar.tag with
    | .none =>
      some (if scalar.text.isEmpty || isNullWord scalar.text then .none else some scalar)
    | some tag =>
      if tag = nullTag then
        (if isNullWord scalar.text then some .none else .none)
      else some (some scalar)

/-- The bases that a sign in front of the digits tells. -/
def signedBase? : List Char → Option (Nat × List Char)
  | '0' :: 'x' :: digits => some (16, digits)
  | '0' :: 'o' :: digits => some (8, digits)
  | '0' :: 'b' :: digits => some (2, digits)
  | _ => .none

/-- Reads a number: decimal without zeros in front, or in the base of a sign, possibly behind a
plus. -/
def readNumber (text : String) : Option Nat :=
  let unsigned := match text.toList with
    | '+' :: rest => rest
    | characters => characters
  match signedBase? unsigned with
  | some (base, digits) => Number.ofDigits base digits
  | .none =>
    if unsigned.head? = some '0' && 1 < unsigned.length then .none
    else Number.ofDigits 10 unsigned

/-- The number that a scalar stands for. It has to be plain, or a literal block that is tagged as a
number. -/
def number? (scalar : Scalar) : Option Nat :=
  if scalar.style = .plain ||
      scalar.style = .literal && scalar.tag = some numberTag then
    readNumber scalar.text
  else .none

/-! ### Files -/

/-- Settings that are being read: the value of each key that has been read. -/
structure Partial where
  pattern : Option (Option String)
  limit : Option (Option Nat)

/-- Adds an entry. -/
def Partial.add (settings : Partial) (entry : Entry) : Option Partial := do
  let value ← optional entry.2
  if entry.1.text = "pattern" then
    if settings.pattern.isSome then .none
    return { settings with pattern := some (value.map Scalar.text) }
  else if entry.1.text = "limit" then
    if settings.limit.isSome then .none
    match value with
    | .none => return { settings with limit := some .none }
    | some scalar =>
      let number ← number? scalar
      return { settings with limit := some (some number) }
  else .none

/-- The settings in the text of the file at `path`. -/
def parse (path text : String) : Except SettingsError Settings :=
  match (Document.read text).bind fun entries =>
      entries.foldlM Partial.add ⟨.none, .none⟩ with
  | some settings => .ok ⟨settings.pattern.join, settings.limit.join⟩
  | .none => .error (.malformed path)

/-- The file that is read if it exists and no other one is asked for. -/
def usualPath : String := "sqltest.yaml"

/-- The settings in a file, which has to be text. -/
def read (tree : FileTree) (path : String) : Except SettingsError Settings :=
  match tree.read? path with
  | .none => .error (.unreadable path)
  | some content =>
    match Utf8.decode content with
    | .error _ => .error (.unreadable path)
    | .ok text => parse path text

/-- The settings in the file that is asked for, or in the usual one if it exists, or none. -/
def load (tree : FileTree) : (path : Option String) → Except SettingsError Settings
  | some path => read tree path
  | .none => if (tree.read? usualPath).isSome then read tree usualPath else .ok none

/-! ### What is in force -/

/-- The pattern in force, where `flag` is what the command line says. -/
def patternOr (settings : Settings) (flag : Option String) : String :=
  (flag.or settings.pattern).getD Discovery.defaultPattern

/-- The configuration in force, where `flag` is what the command line says. -/
def configFor (settings : Settings) (flag : Option Nat) : Config :=
  match flag.or settings.limit with
  | some limit => Config.withLimit {} limit
  | .none => {}

end Settings

end SqlFixture
