import SqlFixture.Action
import SqlFixture.Dictionary
import SqlFixture.Scan.Blank
import SqlFixture.Scan.Cut
import SqlFixture.StatementError

/-
**The directives of a fixture.**

A statement without its leading comments is offered to interpreters in turn. The first one that
takes it decides: the statement changes the context, becomes an action, or is refused. A statement
that none takes is plain SQL.

* `Directive.define`: `define KEY`, and the query on the lines below;
* `Directive.assert`: `assert KEY EXPECTED` on a key that is defined;
* `Directive.except`: `except SUBSTRING`, and the query on the lines below;
* `Directive.interpret`: a chain of interpreters, where the first one to take a statement wins;
* `Directive.Decides`: the one that decides, `interpret_eq_iff` says that its answer is the chain's.
-/

namespace SqlFixture

/-- What an interpreter makes of a statement. -/
inductive Outcome where
  /-- The statement belongs to another interpreter. -/
  | notMatched
  | context (next : Context)
  | action (action : Action)
deriving DecidableEq

/-- Reads a statement that stands without its comments and its terminator. -/
abbrev Interpreter := Context → Bytes → Except StatementError Outcome

namespace Directive

/-! ### Texts and refusals -/

/-- The text that bytes encode. Bytes are never replaced, so that different keys stay different. -/
def text (bytes : Bytes) : Except StatementError String :=
  match Utf8.decode bytes with
  | .ok decoded => .ok decoded
  | .error offset => .error (.invalidUtf8 offset)

/-- A cause to refuse a statement where a part of it is missing. -/
def require (cause : StatementError) : Option α → Except StatementError α
  | some part => .ok part
  | none => .error cause

/-- A cause to refuse a statement where a condition holds. -/
def refuseIf (condition : Bool) (cause : StatementError) : Except StatementError Unit :=
  if condition then .error cause else .ok ()

theorem text_eq_ok_iff {bytes : Bytes} {decoded : String} :
    text bytes = .ok decoded ↔ Utf8.decode bytes = .ok decoded := by
  unfold text
  cases Utf8.decode bytes <;> simp

theorem require_eq_ok_iff {cause : StatementError} {found : Option α} {part : α} :
    require cause found = .ok part ↔ found = some part := by
  cases found <;> simp [require]

theorem refuseIf_eq_ok_iff {condition : Bool} {cause : StatementError} {done : Unit} :
    refuseIf condition cause = .ok done ↔ condition = false := by
  cases condition <;> simp [refuseIf]

theorem require_eq_error_iff {cause other : StatementError} {found : Option α} :
    require cause found = .error other ↔ found = none ∧ other = cause := by
  cases found <;> simp [require, eq_comm]

theorem refuseIf_eq_error_iff {condition : Bool} {cause other : StatementError} :
    refuseIf condition cause = .error other ↔ condition = true ∧ other = cause := by
  cases condition <;> simp [refuseIf, eq_comm]

/-! ### The keywords -/

/-- Binds the query below the first line to the key on it. -/
def defineBody (context : Context) (body : Bytes) : Except StatementError Outcome := do
  let (first, query) ← require .defineMissingNewline (Scan.splitAround? newline body)
  let key := Scan.trim first
  refuseIf key.isEmpty .defineMissingKey
  refuseIf query.isEmpty .defineMissingQuery
  let keyText ← text key
  refuseIf (key.any Scan.isPadding) (.defineKeyWhitespace keyText)
  let queryText ← text query
  let next ← require (.defineDuplicate keyText) (context.define keyText queryText)
  return .context next

/-- Checks the rows of the query that is defined under the first word. -/
def assertBody (context : Context) (body : Bytes) : Except StatementError Outcome := do
  let trimmed := Scan.trim body
  refuseIf trimmed.isEmpty .assertMissingKey
  let (key, expected) ← require .assertMissingValue (Scan.splitAround? Scan.space trimmed)
  refuseIf expected.isEmpty .assertMissingValue
  let keyText ← text key
  let query ← require (.assertUndefined keyText) (context.find? keyText)
  let expectedText ← text expected
  return .action (.assert keyText query expectedText)

/-- Expects the query below the first line to fail with the text on it. -/
def exceptBody (body : Bytes) : Except StatementError Outcome := do
  let (substring, query) ← require .exceptMissingQuery (Scan.splitAround? newline body)
  refuseIf substring.isEmpty .exceptMissingSubstring
  refuseIf query.isEmpty .exceptMissingQuery
  let substringText ← text substring
  let queryText ← text query
  return .action (.except queryText substringText)

/-- Reads a statement behind a keyword and leaves all others to the next interpreter. -/
def keyword (word : String) (body : Context → Bytes → Except StatementError Outcome) :
    Interpreter := fun context probe =>
  match Scan.afterKeyword? (asciiBytes word) probe with
  | none => .ok .notMatched
  | some rest => body context rest

/-- The directive that binds a query to a key. -/
def define : Interpreter := keyword "define " defineBody

/-- The directive that compares the rows of a defined query with a text. -/
def assert : Interpreter := keyword "assert " assertBody

/-- The directive that expects a query to fail. -/
def except : Interpreter := keyword "except " fun _ body => exceptBody body

/-- The chain that fixtures are read with unless another one is chosen. -/
def standard : List Interpreter := [define, assert, except]

/-- Offers a statement to each interpreter until one takes or refuses it. -/
def interpret : List Interpreter → Interpreter
  | [], _, _ => .ok .notMatched
  | interpreter :: others, context, probe =>
    match interpreter context probe with
    | .ok .notMatched => interpret others context probe
    | .ok taken => .ok taken
    | .error cause => .error cause

/-! ### Who decides -/

section

variable {chain : List Interpreter} {interpreter decider : Interpreter} {context : Context}
  {probe : Bytes}

theorem interpret_cons_of_left (left : interpreter context probe = .ok .notMatched)
    (others : List Interpreter) :
    interpret (interpreter :: others) context probe = interpret others context probe := by
  rw [interpret, left]

theorem interpret_cons_of_matched (matched : interpreter context probe ≠ .ok .notMatched)
    (others : List Interpreter) :
    interpret (interpreter :: others) context probe = interpreter context probe := by
  rw [interpret]
  cases answer : interpreter context probe with
  | error cause => rfl
  | ok outcome =>
    cases outcome with
    | notMatched => exact absurd answer matched
    | context | action => rfl

/-- Where nobody takes or refuses a statement, it gets past the chain. -/
theorem interpret_of_all
    (leave : ∀ interpreter ∈ chain, interpreter context probe = .ok .notMatched) :
    interpret chain context probe = .ok .notMatched := by
  induction chain with
  | nil => rfl
  | cons interpreter others ih =>
    rw [interpret_cons_of_left (leave interpreter List.mem_cons_self)]
    exact ih fun other member => leave other (.tail _ member)

/-- Whether an interpreter decides for a chain: all in front of it leave the statement to others,
and it does not. -/
def Decides (chain : List Interpreter) (context : Context) (probe : Bytes)
    (decider : Interpreter) : Prop :=
  ∃ earlier later, chain = earlier ++ decider :: later ∧
    (∀ other ∈ earlier, other context probe = .ok .notMatched) ∧
    decider context probe ≠ .ok .notMatched

theorem decides_or_all (chain : List Interpreter) (context : Context) (probe : Bytes) :
    (∃ decider, Decides chain context probe decider) ∨
      ∀ interpreter ∈ chain, interpreter context probe = .ok .notMatched := by
  induction chain with
  | nil => exact .inr nofun
  | cons interpreter others ih =>
    by_cases left : interpreter context probe = .ok .notMatched
    · rcases ih with ⟨decider, earlier, later, rfl, leave, matched⟩ | all
      · exact .inl ⟨decider, interpreter :: earlier, later, rfl,
          List.forall_mem_cons.mpr ⟨left, leave⟩, matched⟩
      · exact .inr (List.forall_mem_cons.mpr ⟨left, all⟩)
    · exact .inl ⟨interpreter, [], others, rfl, nofun, left⟩

/-- The one that decides answers for the chain, whether it takes a statement or refuses it. -/
theorem Decides.interpret_eq (decides : Decides chain context probe decider) :
    interpret chain context probe = decider context probe := by
  obtain ⟨earlier, later, rfl, leave, matched⟩ := decides
  induction earlier with
  | nil => exact interpret_cons_of_matched matched later
  | cons first earlier ih =>
    obtain ⟨left, leave⟩ := List.forall_mem_cons.mp leave
    rw [List.cons_append, interpret_cons_of_left left, ih leave]

/-- **The first one not to leave a statement answers for the chain.** -/
theorem interpret_eq_iff {answer : Except StatementError Outcome}
    (matched : answer ≠ .ok .notMatched) :
    interpret chain context probe = answer ↔
      ∃ decider, Decides chain context probe decider ∧ decider context probe = answer := by
  constructor
  · rintro rfl
    rcases decides_or_all chain context probe with ⟨decider, decides⟩ | all
    · exact ⟨decider, decides, decides.interpret_eq.symm⟩
    · exact absurd (interpret_of_all all) matched
  · rintro ⟨decider, decides, rfl⟩
    exact decides.interpret_eq

end

end Directive

end SqlFixture
