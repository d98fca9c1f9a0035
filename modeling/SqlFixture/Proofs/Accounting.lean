import SqlFixture.Proofs.Origins

/-
**Every byte of a fixture is accounted for.**

The delimiter is foreign to the loop: it may mark a place behind the end of the bytes, or none at
all, and tell lines as it likes. Whatever it does, the bytes that are still to be cut are those
behind the cursor. So a build skips blanks and cuts off whole chunks, one behind the other, and all
that is not in a statement is a blank, a comment or a chunk that an interpreter answered with a
context.

* `Loop.InStep`: cursor and bytes of a loop agree, kept by every pass (`Loop.inStep_of_after`);
* `Accounted`: what becomes of the bytes of a fixture, stretch by stretch;
* `Remainder.accounted_of_cutting`: so it is of chunks that are not refused;
* `Loop.exists_cut_of_refusal`: a refused chunk is cut off by some pass;
* `Test.build_accounts`: what this says of a build.
-/

namespace SqlFixture

open Directive

variable {fixture : Bytes}

/-! ### Loops -/

namespace Loop

variable {config : Config} {loop later : Loop}

theorem tailOf_of_pass (tail : loop.remainder.TailOf fixture)
    (passed : loop.pass config = .next later) : later.remainder.TailOf fixture := by
  obtain ⟨_, _, ⟨_, _, trimmed⟩ | ⟨chunk, cut, _⟩⟩ := pass_eq_next passed
  · rw [trimmed]
    exact tail.skipBlank
  · exact (tail.skipBlank.cut cut).1

/-- The bytes that are still to be cut are those behind the cursor: before the blanks, behind them
and behind the next chunk. Neither the blanks nor the chunk nor the comments in it go beyond the
bytes in which they stand. -/
structure InStep (config : Config) (fixture : Bytes) (loop : Loop) : Prop where
  tail : loop.remainder.TailOf fixture
  blanks : (Scan.skipBlank loop.remainder.bytes).index ≤ loop.remainder.bytes.length
  trimmed : loop.remainder.skipBlank.TailOf fixture
  cut : ∀ chunk rest, loop.remainder.skipBlank.cut? config.delimiter = some (chunk, rest) →
    chunk.source.length ≤ loop.remainder.skipBlank.bytes.length ∧
      (Scan.skipComment chunk.source).index ≤ chunk.source.length ∧ rest.TailOf fixture

theorem inStep_of_tailOf (tail : loop.remainder.TailOf fixture) : loop.InStep config fixture := by
  refine ⟨tail, ?_, tail.skipBlank, fun chunk rest cut => ⟨?_, ?_, (tail.skipBlank.cut cut).1⟩⟩
  · exact (List.takeWhile_sublist _).length_le
  · have whole := congrArg List.length (Remainder.source_append_bytes cut)
    rw [List.length_append] at whole
    omega
  · exact Scan.skipComment_index_le _

/-- **The bytes of every loop that is reached are those behind its cursor.** -/
theorem inStep_of_after {passes : Nat}
    (reached : (start config fixture).after config passes = some loop) :
    loop.InStep config fixture := by
  refine inStep_of_tailOf ?_
  exact after_induction (fun _ _ => tailOf_of_pass) (Remainder.tailOf_whole fixture) reached

/-- **A refused chunk is cut off by some pass**, and taking it in is what fails. -/
theorem exists_cut_of_refusal {chunk : Chunk} {cause : StatementError}
    (refusal : config.refusal? fixture = some (chunk, cause)) :
    ∃ passes last rest, (start config fixture).after config passes = some last ∧
      last.remainder.skipBlank.bytes ≠ [] ∧
      last.remainder.skipBlank.cut? config.delimiter = some (chunk, rest) ∧
      last.progress.take config.interpreters chunk = .error cause := by
  obtain ⟨passes, last, reached, ends⟩ := finish_eq_last config (start config fixture)
  have refused := Test.finish_start config fixture
  rw [refusal] at refused
  rcases ends with ⟨progress, _, finished⟩ | ⟨stop, passed, stopped⟩
  · rw [finished] at refused
    cases refused
  · rw [stopped] at refused
    cases refused
    obtain ⟨inked, ⟨_, limited⟩ | ⟨other, rest, why, cut, taken, same⟩⟩ := pass_eq_stopped passed
    · cases limited
    · cases same
      exact ⟨passes, last, rest, reached, inked, cut, taken⟩

end Loop

/-! ### Chunks that are not refused -/

namespace Chunk

variable {interpreters : List Interpreter} {context : Context} {chunk : Chunk}

/-- Whether a chunk stands at an index, which is the place of a byte that is not blank. -/
structure StandsAt (index : Nat) (chunk : Chunk) : Prop where
  left : chunk.left.index = index
  right : chunk.right.index = index + chunk.source.length
  begins : ∃ first later, chunk.source = first :: later ∧ Scan.isBlank first = false

/-- A chunk that is not refused is all comment, or it is answered with a context, or it becomes a
statement. -/
theorem cases_of_accepted (accepted : chunk.refusal? interpreters context = none) :
    (chunk.probe = [] ∧ chunk.contextBehind interpreters context = context ∧
      chunk.statement? interpreters context = none) ∨
    (chunk.probe ≠ [] ∧
      interpret interpreters context chunk.probe =
        .ok (.context (chunk.contextBehind interpreters context)) ∧
      chunk.statement? interpreters context = none) ∨
    ∃ action, chunk.contextBehind interpreters context = context ∧
      chunk.statement? interpreters context =
        some ⟨chunk.left, chunk.right, chunk.source, action⟩ := by
  unfold refusal? at accepted
  unfold contextBehind statement? action?
  split at accepted
  · cases accepted
  · by_cases nothing : chunk.probe = []
    · rw [if_pos nothing, if_pos nothing]
      exact .inl ⟨nothing, rfl, rfl⟩
    · simp only [if_neg nothing] at accepted ⊢
      cases answer : interpret interpreters context chunk.probe with
      | error cause =>
        rw [answer] at accepted
        cases accepted
      | ok outcome =>
        cases outcome with
        | notMatched => exact .inr (.inr ⟨_, rfl, rfl⟩)
        | context next => exact .inr (.inl ⟨nothing, rfl, rfl⟩)
        | action action => exact .inr (.inr ⟨action, rfl, rfl⟩)

end Chunk

/-! ### Stretches of a fixture -/

/-- What becomes of the bytes from an index on, under the context that is left behind so far:
stretches of blanks are skipped, and each chunk is all comment, or is answered with a context, or
becomes a statement, which stands where the chunk stands. -/
inductive Accounted (interpreters : List Interpreter) :
    Context → Nat → List Chunk → List Statement → Bytes → Prop
  | nil (context : Context) (index : Nat) : Accounted interpreters context index [] [] []
  | blanks {context : Context} {index : Nat} {chunks : List Chunk} {statements : List Statement}
      {gap bytes : Bytes} :
      (∀ byte ∈ gap, Scan.isBlank byte = true) →
      Accounted interpreters context (index + gap.length) chunks statements bytes →
      Accounted interpreters context index chunks statements (gap ++ bytes)
  | comment {context : Context} {index : Nat} {chunk : Chunk} {chunks : List Chunk}
      {statements : List Statement} {bytes : Bytes} :
      chunk.StandsAt index → chunk.probe = [] →
      Accounted interpreters context chunk.right.index chunks statements bytes →
      Accounted interpreters context index (chunk :: chunks) statements (chunk.source ++ bytes)
  | answered {context next : Context} {index : Nat} {chunk : Chunk} {chunks : List Chunk}
      {statements : List Statement} {bytes : Bytes} :
      chunk.StandsAt index → chunk.probe ≠ [] →
      interpret interpreters context chunk.probe = .ok (.context next) →
      Accounted interpreters next chunk.right.index chunks statements bytes →
      Accounted interpreters context index (chunk :: chunks) statements (chunk.source ++ bytes)
  | recorded {context : Context} {index : Nat} {chunk : Chunk} {chunks : List Chunk}
      {statements : List Statement} {bytes : Bytes} (action : Action) :
      chunk.StandsAt index →
      Accounted interpreters context chunk.right.index chunks statements bytes →
      Accounted interpreters context index (chunk :: chunks)
        (⟨chunk.left, chunk.right, chunk.source, action⟩ :: statements) (chunk.source ++ bytes)

namespace Accounted

variable {interpreters : List Interpreter} {context : Context} {index : Nat} {chunks : List Chunk}
  {statements : List Statement} {bytes : Bytes}

/-- One more chunk in front, which is not refused. -/
theorem cons {chunk : Chunk} (stands : chunk.StandsAt index)
    (accepted : chunk.refusal? interpreters context = none)
    (behind : Accounted interpreters (chunk.contextBehind interpreters context) chunk.right.index
      chunks statements bytes) :
    Accounted interpreters context index (chunk :: chunks)
      ((chunk.statement? interpreters context).toList ++ statements) (chunk.source ++ bytes) := by
  rcases Chunk.cases_of_accepted accepted with ⟨nothing, same, unrecorded⟩ |
    ⟨something, answer, unrecorded⟩ | ⟨action, same, recorded⟩
  · rw [same] at behind
    rw [unrecorded]
    exact .comment stands nothing behind
  · rw [unrecorded]
    exact .answered stands something answer behind
  · rw [same] at behind
    rw [recorded]
    exact .recorded action stands behind

theorem le_left (accounted : Accounted interpreters context index chunks statements bytes) :
    ∀ statement ∈ statements, index ≤ statement.left.index := by
  induction accounted with
  | nil => exact List.forall_mem_nil _
  | blanks _ _ ih => exact fun statement member => Nat.le_of_add_right_le (ih statement member)
  | comment stands _ _ ih =>
    exact fun statement member => Nat.le_of_add_right_le (stands.right ▸ ih statement member)
  | answered stands _ _ _ ih =>
    exact fun statement member => Nat.le_of_add_right_le (stands.right ▸ ih statement member)
  | recorded action stands _ ih =>
    refine List.forall_mem_cons.mpr ⟨Nat.le_of_eq stands.left.symm, fun statement member => ?_⟩
    exact Nat.le_of_add_right_le (stands.right ▸ ih statement member)

/-- **No statement begins before the one in front of it ends.** -/
theorem pairwise (accounted : Accounted interpreters context index chunks statements bytes) :
    statements.Pairwise fun first second => first.right.index ≤ second.left.index := by
  induction accounted with
  | nil => exact .nil
  | blanks _ _ ih => exact ih
  | comment _ _ _ ih => exact ih
  | answered _ _ _ _ ih => exact ih
  | recorded action _ behind ih => exact List.pairwise_cons.mpr ⟨behind.le_left, ih⟩

/-- **Each statement is the bytes of the fixture from its left to its right**, which begin with a
byte that is not blank. -/
theorem slice (accounted : Accounted interpreters context index chunks statements bytes)
    (front : Bytes) (whole : fixture = front ++ bytes) (length : front.length = index) :
    ∀ statement ∈ statements, statement.source = statement.extent.bytes fixture ∧
      ∃ first later, statement.source = first :: later ∧ Scan.isBlank first = false := by
  induction accounted generalizing front with
  | nil => exact List.forall_mem_nil _
  | @blanks _ _ _ _ gap _ _ _ ih =>
    refine ih (front ++ gap) ?_ ?_
    · rw [whole, List.append_assoc]
    · rw [List.length_append, length]
  | @comment _ _ chunk _ _ _ stands _ _ ih =>
    refine ih (front ++ chunk.source) ?_ ?_
    · rw [whole, List.append_assoc]
    · rw [List.length_append, length, stands.right]
  | @answered _ _ _ chunk _ _ _ stands _ _ _ ih =>
    refine ih (front ++ chunk.source) ?_ ?_
    · rw [whole, List.append_assoc]
    · rw [List.length_append, length, stands.right]
  | @recorded _ _ chunk _ _ _ action stands _ ih =>
    refine List.forall_mem_cons.mpr ⟨⟨?_, stands.begins⟩, ih (front ++ chunk.source) ?_ ?_⟩
    · show chunk.source =
        (fixture.drop chunk.left.index).take (chunk.right.index - chunk.left.index)
      rw [stands.right, stands.left, Nat.add_sub_cancel_left, whole, ← length, List.drop_left,
        List.take_left]
    · rw [whole, List.append_assoc]
    · rw [List.length_append, length, stands.right]

end Accounted

namespace Remainder

variable {interpreters : List Interpreter} {delimiter : Delimiter}

theorem standsAt_of_cut {remainder rest : Remainder} {chunk : Chunk}
    (inked : remainder.skipBlank.bytes ≠ [])
    (cut : remainder.skipBlank.cut? delimiter = some (chunk, rest)) :
    chunk.StandsAt remainder.skipBlank.cursor.index := by
  obtain ⟨_, left, _, right, _, _⟩ := cut?_eq_some_iff.mp cut
  exact ⟨congrArg Position.index left, congrArg Position.index right, begins_of_cut inked cut⟩

/-- **All bytes are accounted for** if no chunk is refused and the delimiter does not stall. -/
theorem accounted_of_cutting {context : Context} {remainder : Remainder}
    (moving : (remainder.cutting delimiter).stall = none)
    (accepted :
      Chunk.firstRefusal? interpreters context (remainder.cutting delimiter).chunks = none) :
    Accounted interpreters context remainder.cursor.index (remainder.cutting delimiter).chunks
      (Chunk.statements interpreters context (remainder.cutting delimiter).chunks)
      remainder.bytes := by
  induction remainder using cutting_induction delimiter generalizing context with
  | blank remainder blank =>
    rw [cutting_of_blank blank, ← List.append_nil remainder.bytes]
    exact .blanks (Scan.isBlank_of_afterBlanks_eq_nil blank) (.nil _ _)
  | stall remainder inked stalled =>
    rw [cutting_of_stall inked stalled] at moving
    cases moving
  | cut remainder chunk rest inked cut ih =>
    obtain ⟨_, _, _, _, cursor, _⟩ := cut?_eq_some_iff.mp cut
    rw [cutting_of_cut inked cut] at moving accepted ⊢
    rw [Chunk.firstRefusal?_cons] at accepted
    have divided : remainder.bytes =
        Scan.blanks remainder.bytes ++ (chunk.source ++ rest.bytes) := by
      rw [source_append_bytes cut]
      exact (Scan.blanks_append_afterBlanks _).symm
    split at accepted
    · cases accepted
    next here =>
      have behind := ih moving accepted
      rw [cursor] at behind
      rw [Chunk.statements_cons, divided]
      refine .blanks (fun _ => Scan.isBlank_of_mem_blanks) ?_
      exact .cons (standsAt_of_cut inked cut) here behind

end Remainder

/-! ### A whole build -/

theorem Position.span_of_le {left right : Position} (ordered : left.index ≤ right.index) :
    span left right = (left.index, right.index - left.index) := by
  rw [span, Nat.max_eq_left ordered]

namespace Test

variable {config : Config} {name : String}

/-- All bytes of a fixture that builds are accounted for by the chunks within the limit and the
statements of the test. -/
theorem accounted_of_build {test : Test} (built : build config name fixture = .ok test) :
    Accounted config.interpreters .empty 0 (config.chunks fixture) test.statements fixture := by
  obtain ⟨accepted, unfelt, _, rfl⟩ := build_eq_ok built
  obtain ⟨few, moving⟩ := limitPlace?_eq_none_iff.mp unfelt
  have all : config.chunks fixture =
      ((Remainder.whole fixture).cutting config.delimiter).chunks := List.take_of_length_le few
  rw [Config.refusal?, all] at accepted
  show Accounted _ _ _ _ (config.statements fixture) _
  rw [Config.statements, all]
  exact Remainder.accounted_of_cutting moving accepted

/-- A refused chunk has at least one byte, and none beyond the end of the fixture. -/
theorem bounds_of_refused {called shown : String} {left right : Position} {cause : StatementError}
    (refused : build config name fixture = .error (.refused called left right cause shown)) :
    left.index < right.index ∧ right.index ≤ fixture.length := by
  obtain ⟨chunk, refusal, rfl, rfl⟩ := build_eq_refused refused
  obtain ⟨_, last, rest, reached, inked, cut, _⟩ := Loop.exists_cut_of_refusal refusal
  have trimmed := (Loop.inStep_of_after reached).trimmed
  obtain ⟨tail, right, _⟩ := trimmed.cut cut
  have some_byte := List.length_pos_iff.mpr (Remainder.source_ne_nil inked cut)
  have cursor := (Remainder.cut?_eq_some_iff.mp cut).2.2.2.2.1
  have within := tail.within
  rw [cursor] at within
  exact ⟨by omega, within⟩

/-- **A build accounts for every byte of its fixture**, whatever the delimiter marks, the
interpreters answer and the limit is. In every loop that it reaches, the bytes still to be cut are
those behind the cursor, and nothing is cut beyond them. If it succeeds, each statement is the
bytes from its left to its right, which begin with a byte that is not blank; the statements stand
one behind the other; and what is in none of them is blank, or a chunk that is all comment or was
answered with a context. If a chunk is refused, the marked span is that chunk. -/
theorem build_accounts (config : Config) (name : String) (fixture : Bytes) :
    (∀ passes loop, (Loop.start config fixture).after config passes = some loop →
      loop.InStep config fixture) ∧
    (∀ test, build config name fixture = .ok test →
      (∀ statement ∈ test.statements, statement.source = statement.extent.bytes fixture ∧
        ∃ first later, statement.source = first :: later ∧ Scan.isBlank first = false) ∧
      (test.statements.Pairwise fun first second => first.right.index ≤ second.left.index) ∧
      Accounted config.interpreters .empty 0 (config.chunks fixture) test.statements fixture) ∧
    ∀ called left right cause shown,
      build config name fixture = .error (.refused called left right cause shown) →
      left.index < right.index ∧ right.index ≤ fixture.length ∧
        (BuildError.refused called left right cause shown).span? =
          some (left.index, right.index - left.index) := by
  refine ⟨fun passes loop => Loop.inStep_of_after, fun test built => ?_,
    fun called left right cause shown refused => ?_⟩
  · have accounted := accounted_of_build built
    exact ⟨accounted.slice [] rfl rfl, accounted.pairwise, accounted⟩
  · obtain ⟨ordered, within⟩ := bounds_of_refused refused
    refine ⟨ordered, within, ?_⟩
    exact congrArg some (Position.span_of_le (Nat.le_of_lt ordered))

/-- A delimiter that tells any lines and marks places behind the end, and an interpreter that
answers notes with the context it is given. -/
theorem build_accounts_of_wild_delimiter :
    let wild : Delimiter := fun bytes => ⟨9, if bytes.length < 6 then 100 else 6⟩
    let noting : Interpreter := fun context probe =>
      if probe.head? = some 0x23 then .ok (.context context) else .ok .notMatched
    let config : Config := { limit := 4, delimiter := wild, interpreters := [noting] }
    let fixture := asciiBytes "--abc\n# note;\n SELECT 1"
    let broken : Bytes := [0x41, 0xFF]
    (∃ loop, (Loop.start config fixture).after config 2 = some loop ∧
      loop.InStep config fixture) ∧
    (∃ test, build config "t" fixture = .ok test ∧
      test.statements.map (fun statement => (statement.left, statement.right)) =
        [(⟨19, 15⟩, ⟨28, 21⟩), (⟨28, 22⟩, ⟨37, 23⟩)] ∧
      (∀ statement ∈ test.statements, statement.source = statement.extent.bytes fixture) ∧
      Accounted config.interpreters .empty 0 (config.chunks fixture) test.statements fixture) ∧
    ∃ shown,
      build config "t" broken = .error (.refused "t" ⟨0, 0⟩ ⟨9, 2⟩ (.invalidUtf8 1) shown) ∧
      (BuildError.refused "t" ⟨0, 0⟩ ⟨9, 2⟩ (.invalidUtf8 1) shown).span? = some (0, 2) := by
  intro wild noting config fixture broken
  obtain ⟨loops, builds, _⟩ := build_accounts config "t" fixture
  obtain ⟨_, _, refusals⟩ := build_accounts config "t" broken
  refine ⟨?_, ?_, ?_⟩
  · have some_left : ((Loop.start config fixture).after config 2).isSome = true := by
      decide +kernel
    obtain ⟨loop, reached⟩ := Option.isSome_iff_exists.mp some_left
    exact ⟨loop, reached, loops 2 loop reached⟩
  · have told : (build config "t" fixture).toOption.map (fun test =>
        test.statements.map fun statement => (statement.left, statement.right)) =
        some [(⟨19, 15⟩, ⟨28, 21⟩), (⟨28, 22⟩, ⟨37, 23⟩)] := by
      decide +kernel
    obtain ⟨test, built, places⟩ := exists_of_toOption told
    obtain ⟨slices, _, accounted⟩ := builds test built
    exact ⟨test, built, places, fun statement member => (slices statement member).1, accounted⟩
  · have told : failure? (build config "t" broken) =
        some (.refused "t" ⟨0, 0⟩ ⟨9, 2⟩ (.invalidUtf8 1) (Utf8.lossy broken)) := by
      decide +kernel
    have refused := failure?_eq_some_iff.mp told
    exact ⟨_, refused, (refusals _ _ _ _ _ refused).2.2⟩

end Test

end SqlFixture
