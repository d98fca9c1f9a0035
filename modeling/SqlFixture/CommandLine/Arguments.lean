import SqlFixture.Text.Number

/-
**The arguments of the command line.**

A command line names a command, `check` or `show`, between options. An option takes its value behind
an equals sign or from the next argument. A value is looked at when the next option, the next operand
or the end of the arguments comes, and until then an argument that is not known goes before it.

* `Invocation.parse`: what arguments ask for, or why they ask for nothing;
* `Invocation`, `Command`: what can be asked for;
* `ArgumentError`: the refusals, and the requests for help that end a run as well.
-/

namespace SqlFixture

/-- A command with its operands and options. -/
inductive Command where
  | checkFixtures (pattern : Option String) (limit : Option Nat)
  | showFixture (file : String) (json : Bool) (limit : Option Nat)
deriving Repr, DecidableEq

/-- What a command line asks for. -/
structure Invocation where
  config : Option String
  command : Command
deriving Repr, DecidableEq

/-- Why arguments do not name a command to run. -/
inductive ArgumentError where
  | help
  | version
  | nothing
  | missingCommand
  | unknownCommand
  /-- One of them is no option, or an operand too many. -/
  | unknownArgument
  | missingValue
  /-- A value is no number, or too large a number. -/
  | invalidNumber
  | unexpectedValue
  | repeated
  | missingOperand
deriving Repr, DecidableEq

/-- The exit code of a run that such arguments end. -/
def ArgumentError.exitCode : ArgumentError → Nat
  | help | version => 0
  | _ => 2

namespace Arguments

/-! ### Options -/

/-- What takes a value. -/
inductive Slot where
  | config
  | limit
  | operand
deriving Repr, DecidableEq

/-- The arguments that a command, or the part in front of it, knows. -/
structure Grammar where
  hasCommands : Bool
  hasLimit : Bool
  hasJson : Bool
  hasOperand : Bool
  operandIsPath : Bool

namespace Grammar

/-- The part in front of the command. -/
def top : Grammar := ⟨true, false, false, false, false⟩

/-- The command that checks. -/
def checking : Grammar := ⟨false, true, false, true, false⟩

/-- The command that shows. -/
def showing : Grammar := ⟨false, true, true, true, true⟩

end Grammar

/-- What a name behind two hyphens stands for. -/
inductive OptionName where
  | valued (slot : Slot)
  | json
  | help
  | version

/-- The option with a long name. -/
def Grammar.option? (grammar : Grammar) (name : String) : Option OptionName :=
  if name = "config" then some (.valued .config)
  else if name = "limit" && grammar.hasLimit then some (.valued .limit)
  else if name = "json" && grammar.hasJson then some .json
  else if name = "help" then some .help
  else if name = "version" && grammar.hasCommands then some .version
  else none

/-- What the first letter behind a single hyphen asks for; nothing but help and the version has a
letter, and both end the run. -/
def Grammar.letter (grammar : Grammar) (letter : Char) : ArgumentError :=
  if letter = 'h' then .help
  else if letter = 'V' && grammar.hasCommands then .version
  else .unknownArgument

/-! ### Values -/

/-- The arguments read so far. -/
structure State where
  config : Option String
  limit : Option Nat
  json : Bool
  operand : Option String
  pending : Option (Slot × Option String)
  onlyOperands : Bool

namespace State

/-- Nothing read yet. -/
def start : State := ⟨none, none, false, none, none, false⟩

/-- Whether the value of an option is still to come. -/
def awaitsValue (state : State) : Bool :=
  match state.pending with
  | some (_, none) => true
  | _ => false

/-- A path, which may not be empty. -/
def path (value : String) : Except ArgumentError String :=
  if value.isEmpty then .error .missingValue else .ok value

/-- A number in decimal digits, possibly behind a plus. -/
def number (value : String) : Except ArgumentError Nat :=
  let digits := match value.toList with
    | '+' :: rest => rest
    | characters => characters
  match Number.ofDigits 10 digits with
  | some number => .ok number
  | none => .error .invalidNumber

/-- Stores a value; an option may be given once. -/
def store (grammar : Grammar) (state : State) (slot : Slot) (value : String) :
    Except ArgumentError State :=
  match slot with
  | .config =>
    if state.config.isSome then .error .repeated
    else (path value).map fun config => { state with config := some config }
  | .limit =>
    if state.limit.isSome then .error .repeated
    else (number value).map fun limit => { state with limit := some limit }
  | .operand =>
    if grammar.operandIsPath then
      (path value).map fun operand => { state with operand := some operand }
    else .ok { state with operand := some value }

/-- Looks at the value that is pending; one that has not come is missing. -/
def settle (grammar : Grammar) (state : State) : Except ArgumentError State :=
  let settled := { state with pending := none }
  match state.pending with
  | none => .ok state
  | some (_, none) => .error .missingValue
  | some (slot, some value) => settled.store grammar slot value

/-- Reads an option, with what follows its equals sign if there is one. -/
def readOption (grammar : Grammar) (state : State) (name : String) (attached : Option String) :
    Except ArgumentError State :=
  match grammar.option? name, attached with
  | none, _ => .error .unknownArgument
  | some (.valued slot), none => do
    let settled ← state.settle grammar
    return { settled with pending := some (slot, none) }
  | some (.valued slot), some value => do
    let settled ← state.settle grammar
    settled.store grammar slot value
  | some .json, none => do
    let settled ← state.settle grammar
    if settled.json then .error .repeated
    else return { settled with json := true }
  | some .help, none => do
    discard (state.settle grammar)
    .error .help
  | some .version, none => do
    discard (state.settle grammar)
    .error .version
  | some _, some _ => .error .unexpectedValue

/-- Reads an operand, if there is a place for it. -/
def readOperand (grammar : Grammar) (state : State) (value : String) :
    Except ArgumentError State :=
  let isTaken := state.operand.isSome ||
    state.pending.any fun pending => pending.1 = .operand
  if !grammar.hasOperand || isTaken then .error .unknownArgument
  else do
    let settled ← state.settle grammar
    return { settled with pending := some (.operand, some value) }

/-- Reads an argument that names no command. -/
def read (grammar : Grammar) (state : State) (argument : String) :
    Except ArgumentError State :=
  let characters := argument.toList
  if state.onlyOperands then state.readOperand grammar argument
  else
    match characters with
    | ['-', '-'] => .ok { state with onlyOperands := true }
    | '-' :: '-' :: rest =>
      let name := rest.takeWhile (· != '=')
      let attached := match rest.drop name.length with
        | [] => none
        | _ :: value => some (String.ofList value)
      state.readOption grammar (String.ofList name) attached
    | '-' :: letter :: _ =>
      match grammar.letter letter with
      | .unknownArgument => .error .unknownArgument
      | request => do
        discard (state.settle grammar)
        .error request
    | _ =>
      match state.pending with
      | some (slot, none) => .ok { state with pending := some (slot, some argument) }
      | _ => state.readOperand grammar argument

/-- Reads all arguments of a command. -/
def readAll (grammar : Grammar) (state : State) (arguments : List String) :
    Except ArgumentError State := do
  let last ← arguments.foldlM (State.read grammar) state
  last.settle grammar

end State

/-! ### Commands -/

/-- The arguments behind a command's name. -/
def readCheck (arguments : List String) : Except ArgumentError Invocation := do
  let state ← State.start.readAll .checking arguments
  return ⟨state.config, .checkFixtures state.operand state.limit⟩

/-- The arguments behind a command's name; the operand may not be missing. -/
def readShow (arguments : List String) : Except ArgumentError Invocation := do
  let state ← State.start.readAll .showing arguments
  match state.operand with
  | none => .error .missingOperand
  | some file => return ⟨state.config, .showFixture file state.json state.limit⟩

/-- Help on a command. The names behind `help` have to lead to a command. -/
def readHelp : (names : List String) → ArgumentError
  | [] | ["check"] | ["show"] | ["help"] => .help
  | _ => .unknownCommand

/-- Whether an argument names a command. -/
def isCommand (argument : String) : Bool :=
  argument = "check" || argument = "show" || argument = "help"

/-- Puts the settings file of the part in front into an invocation that has none of its own. -/
def withConfig (grammar : Grammar) (state : State) (invocation : Invocation) :
    Except ArgumentError Invocation := do
  let settled ← state.settle grammar
  return { invocation with config := invocation.config.or settled.config }

/-- The refusal of an argument that stands where a command should. -/
def refuseCommand (state : State) (argument : String) : ArgumentError :=
  if state.onlyOperands && isCommand argument then .unknownArgument else .unknownCommand

/-- The refusal of arguments that end without a command. -/
def missingCommand (state : State) : ArgumentError :=
  if state.config.isNone then .nothing else .missingCommand

/-- Reads arguments up to the command, then the command. -/
def readTop (state : State) : List String → Except ArgumentError Invocation
  | [] => do
    let settled ← state.settle .top
    .error (missingCommand settled)
  | argument :: rest =>
    if !state.onlyOperands && !state.awaitsValue && isCommand argument then
      if argument = "help" then .error (readHelp rest)
      else do
        let invocation ← if argument = "check" then readCheck rest else readShow rest
        withConfig .top state invocation
    else if state.onlyOperands then .error (refuseCommand state argument)
    else
      match state.awaitsValue, argument.toList with
      | false, '-' :: _ :: _ => do
        let next ← state.read .top argument
        readTop next rest
      | false, _ => .error (refuseCommand state argument)
      | true, _ => do
        let next ← state.read .top argument
        readTop next rest

end Arguments

/-- What the arguments behind the program's name ask for. -/
def Invocation.parse (arguments : List String) : Except ArgumentError Invocation :=
  Arguments.readTop .start arguments

end SqlFixture
