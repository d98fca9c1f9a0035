import SqlFixture.CommandLine.Listing
import SqlFixture.Proofs.Boundary
import SqlFixture.Proofs.FailFast
import SqlFixture.Proofs.Origins

/-
**A fixture is read as text, or not at all.**

Each chunk is decoded before anything else is done with it, and between the chunks stand blanks. So
what lies before the cursor of the loop is a text, whatever the delimiter and the interpreters do,
and a build that succeeds has decoded all of the fixture. The usual delimiter cuts in front of
semicolons: a chunk that cannot be decoded shows its fault where the whole fixture has it. The usual
interpreters get texts and take them apart around single bytes, so that their own decoding does not
fail.

* `Directive.Readable`: steps that are not refused for bytes that are no text;
* `Directive.readable_of_mem_standard`: the usual interpreters are such steps;
* `Loop.Valid`: the invariant, kept by every pass (`Loop.valid_of_pass`);
* `Remainder.isLongestText_of_cut`: a fault in a chunk is the first one of the fixture;
* `Test.text_all_or_nothing`: what a build says of the whole fixture.
-/

namespace SqlFixture

open Directive Utf8

/-! ### The interpreters -/

namespace Directive

/-- Whether a step is not refused for bytes that are no text. -/
def Readable (step : Except StatementError α) : Prop :=
  ∀ offset, step ≠ .error (.invalidUtf8 offset)

theorem Readable.bind {first : Except StatementError α} {next : α → Except StatementError β}
    (here : Readable first) (later : ∀ part, first = .ok part → Readable (next part)) :
    Readable (first >>= next) := by
  cases first with
  | error cause => exact fun offset same => here offset (congrArg _ (Except.error.inj same))
  | ok part => exact later part rfl

theorem readable_ok (part : α) : Readable (.ok part) := fun _ => nofun

theorem readable_text {bytes : Bytes} (valid : IsText bytes) : Readable (text bytes) := by
  obtain ⟨decoded, decodes⟩ := isText_iff_decode.mp valid
  rw [text_eq_ok_iff.mpr decodes]
  exact readable_ok decoded

section

variable {cause : StatementError} (other : ∀ offset, cause ≠ .invalidUtf8 offset)

include other

theorem readable_require (found : Option α) : Readable (require cause found) := by
  cases found with
  | none => exact fun offset same => other offset (Except.error.inj same)
  | some part => exact readable_ok part

theorem readable_refuseIf (condition : Bool) : Readable (refuseIf condition cause) := by
  cases condition with
  | false => exact readable_ok ()
  | true => exact fun offset same => other offset (Except.error.inj same)

end

variable {context : Context} {body probe : Bytes}

theorem readable_defineBody (valid : IsText body) : Readable (defineBody context body) := by
  refine (readable_require (by nofun) _).bind fun parts split => ?_
  obtain ⟨first, query⟩ := parts
  obtain ⟨validFirst, validQuery⟩ :=
    Scan.isText_of_splitAround? valid (by decide) (require_eq_ok_iff.mp split)
  refine (readable_refuseIf (by nofun) _).bind fun _ _ => ?_
  refine (readable_refuseIf (by nofun) _).bind fun _ _ => ?_
  refine (readable_text (Scan.isText_trim validFirst)).bind fun _ _ => ?_
  refine (readable_refuseIf (by nofun) _).bind fun _ _ => ?_
  refine (readable_text validQuery).bind fun _ _ => ?_
  exact (readable_require (by nofun) _).bind fun _ _ => readable_ok _

theorem readable_assertBody (valid : IsText body) : Readable (assertBody context body) := by
  refine (readable_refuseIf (by nofun) _).bind fun _ _ => ?_
  refine (readable_require (by nofun) _).bind fun parts split => ?_
  obtain ⟨key, expected⟩ := parts
  obtain ⟨validKey, validExpected⟩ := Scan.isText_of_splitAround? (Scan.isText_trim valid)
    (by decide) (require_eq_ok_iff.mp split)
  refine (readable_refuseIf (by nofun) _).bind fun _ _ => ?_
  refine (readable_text validKey).bind fun _ _ => ?_
  refine (readable_require (by nofun) _).bind fun _ _ => ?_
  exact (readable_text validExpected).bind fun _ _ => readable_ok _

theorem readable_exceptBody (valid : IsText body) : Readable (exceptBody body) := by
  refine (readable_require (by nofun) _).bind fun parts split => ?_
  obtain ⟨substring, query⟩ := parts
  obtain ⟨validSubstring, validQuery⟩ :=
    Scan.isText_of_splitAround? valid (by decide) (require_eq_ok_iff.mp split)
  refine (readable_refuseIf (by nofun) _).bind fun _ _ => ?_
  refine (readable_refuseIf (by nofun) _).bind fun _ _ => ?_
  refine (readable_text validSubstring).bind fun _ _ => ?_
  exact (readable_text validQuery).bind fun _ _ => readable_ok _

/-- Behind the keyword of a text stands a text. -/
theorem readable_keyword {word : String} {read : Context → Bytes → Except StatementError Outcome}
    (ascii : IsText (asciiBytes word)) (valid : IsText probe)
    (readable : ∀ body, IsText body → Readable (read context body)) :
    Readable (keyword word read context probe) := by
  unfold keyword
  split
  · exact readable_ok _
  next rest found =>
    rw [Scan.afterKeyword?_eq_some_iff.mp found] at valid
    exact readable rest (ascii.of_append valid)

/-- **The usual interpreters do not fail to decode what is cut out of a text.** -/
theorem readable_of_mem_standard {interpreter : Interpreter} (member : interpreter ∈ standard)
    (valid : IsText probe) : Readable (interpreter context probe) := by
  have ascii : ∀ word ∈ keywords, IsText (asciiBytes word) := by
    intro word listed
    have low : ∀ word ∈ keywords, ∀ byte ∈ asciiBytes word, byte.toNat < 0x80 := by
      decide +kernel
    exact isText_of_low (low word listed)
  rcases List.mem_cons.mp member with rfl | member
  · exact readable_keyword (ascii _ (.head _)) valid fun _ => readable_defineBody
  rcases List.mem_cons.mp member with rfl | member
  · exact readable_keyword (ascii _ (.tail _ (.head _))) valid fun _ => readable_assertBody
  · rw [List.mem_singleton.mp member]
    exact readable_keyword (ascii _ (.tail _ (.tail _ (.head _)))) valid
      fun _ => readable_exceptBody

/-- A chain decodes what all of its interpreters decode. -/
theorem readable_interpret {interpreters : List Interpreter}
    (each : ∀ interpreter ∈ interpreters, Readable (interpreter context probe)) :
    Readable (interpret interpreters context probe) := by
  induction interpreters with
  | nil => exact readable_ok _
  | cons interpreter others ih =>
    have first := each interpreter List.mem_cons_self
    have later := ih fun other member => each other (.tail _ member)
    rw [interpret]
    split
    · exact later
    · exact readable_ok _
    next cause failed =>
      rw [failed] at first
      exact fun offset same => first offset (congrArg _ (Except.error.inj same))

end Directive

/-- A chunk is refused as no text exactly where its own bytes cannot be decoded. -/
theorem Progress.decode_of_take_eq_invalidUtf8 {progress : Progress} {chunk : Chunk} {offset : Nat}
    (refused : progress.take standard chunk = .error (.invalidUtf8 offset)) :
    decode chunk.source = .error offset := by
  rw [Progress.take_eq, Chunk.refusal?] at refused
  cases decodes : decode chunk.source with
  | error stopped =>
    rw [decodes] at refused
    cases refused
    rfl
  | ok text =>
    rw [decodes] at refused
    have valid : IsText chunk.probe :=
      Scan.isText_afterComments (isText_iff_decode.mpr ⟨text, decodes⟩)
    have readable : Readable (interpret standard progress.context chunk.probe) :=
      readable_interpret fun _ member => readable_of_mem_standard member valid
    simp only at refused
    split at refused
    next cause same =>
      cases refused
      split at same
      · cases same
      split at same
      next failed =>
        cases same
        exact absurd failed (readable offset)
      · cases same
    · cases refused

/-! ### The loop -/

namespace Remainder

variable {fixture : Bytes} {remainder rest : Remainder} {chunk : Chunk} {delimiter : Delimiter}

theorem TailOf.take_skipBlank (tail : remainder.TailOf fixture) :
    fixture.take remainder.skipBlank.cursor.index =
      fixture.take remainder.cursor.index ++ Scan.blanks remainder.bytes := by
  have moved : remainder.skipBlank.cursor.index =
      remainder.cursor.index + (Scan.blanks remainder.bytes).length := rfl
  rw [moved, List.take_add, ← tail.bytes]
  conv => lhs; arg 2; arg 2; rw [← Scan.blanks_append_afterBlanks remainder.bytes]
  rw [List.take_left]

theorem TailOf.take_cut (tail : remainder.TailOf fixture)
    (cut : remainder.cut? delimiter = some (chunk, rest)) :
    fixture.take rest.cursor.index = fixture.take remainder.cursor.index ++ chunk.source := by
  obtain ⟨_, left, _, _, moved, _⟩ := cut?_eq_some_iff.mp cut
  obtain ⟨_, right, slice⟩ := tail.cut cut
  rw [left] at right slice
  rw [moved, right, List.take_add, ← slice]

/-- The usual delimiter leaves a semicolon in front of what is still to be cut. -/
theorem low_of_cut (cut : remainder.cut? Scan.statementEnd = some (chunk, rest)) :
    ∀ byte ∈ rest.bytes.head?, byte.toNat < 0x80 := by
  obtain ⟨_, _, _, _, _, bytes⟩ := cut?_eq_some_iff.mp cut
  intro byte first
  rw [bytes, List.head?_drop] at first
  have within : (Scan.statementEnd remainder.bytes).index < remainder.bytes.length :=
    (List.getElem?_eq_some_iff.mp first).1
  have ends := (Scan.statementEnd_first remainder.bytes).2 within
  rw [Scan.isTerminator, first, Bool.and_eq_true, beq_iff_eq] at ends
  rw [Option.some.inj ends.1]
  decide

/-- What is cut off a text is a text, and so is what is left of it. -/
theorem isText_of_cut (valid : IsText remainder.bytes)
    (cut : remainder.cut? Scan.statementEnd = some (chunk, rest)) :
    IsText chunk.source ∧ IsText rest.bytes := by
  have low := low_of_cut cut
  rw [← source_append_bytes cut] at valid
  have front : IsText chunk.source := by
    cases bytes : rest.bytes with
    | nil => rwa [bytes, List.append_nil] at valid
    | cons byte later =>
      rw [bytes] at valid low
      exact (valid.cut (low byte rfl)).1
  exact ⟨front, front.of_append valid⟩

theorem isText_of_mem_chunks (valid : IsText remainder.bytes) :
    ∀ chunk ∈ (remainder.cutting Scan.statementEnd).chunks, IsText chunk.source := by
  refine forall_chunks (fun left => IsText left.bytes) valid ?_
  intro left chunk rest valid _ cut
  rw [← Scan.blanks_append_afterBlanks left.bytes] at valid
  have trimmed : IsText left.skipBlank.bytes := (Scan.isText_blanks _).of_append valid
  exact isText_of_cut trimmed cut

/-- **A fault in a chunk is the first one of the fixture**, if a text stands before the chunk. -/
theorem isLongestText_of_cut {offset : Nat} (tail : remainder.TailOf fixture)
    (before : IsText (fixture.take remainder.cursor.index))
    (cut : remainder.cut? Scan.statementEnd = some (chunk, rest))
    (failed : decode chunk.source = .error offset) :
    IsLongestText fixture (chunk.left.index + offset) ∧ ¬IsText fixture := by
  obtain ⟨longest, fault⟩ := isLongestText_of_decode failed
  have left := (cut?_eq_some_iff.mp cut).2.1
  have divided : fixture =
      fixture.take remainder.cursor.index ++ (chunk.source ++ rest.bytes) := by
    rw [source_append_bytes cut, tail.bytes, List.take_append_drop]
  have length : (fixture.take remainder.cursor.index).length = chunk.left.index := by
    rw [left, List.length_take, Nat.min_eq_left tail.within]
  have whole := longest.within_append fault before (low_of_cut cut)
  rw [← divided, length] at whole
  refine ⟨whole, whole.not_isText ?_⟩
  have short : offset < chunk.source.length := by
    refine Nat.lt_of_le_of_ne longest.within fun same => fault ?_
    have valid := longest.isText
    rwa [same, List.take_length] at valid
  have size := congrArg List.length divided
  rw [List.length_append, List.length_append, length] at size
  omega

end Remainder

namespace Loop

variable {config : Config} {fixture : Bytes}

/-- What lies before the cursor is text, and recorded statements are texts that stand there. -/
structure Valid (fixture : Bytes) (loop : Loop) : Prop where
  tail : loop.remainder.TailOf fixture
  before : IsText (fixture.take loop.remainder.cursor.index)
  recorded : ∀ statement ∈ loop.progress.recorded,
    IsText statement.source ∧ statement.source = statement.extent.bytes fixture

theorem valid_start (config : Config) (fixture : Bytes) : (start config fixture).Valid fixture :=
  ⟨Remainder.tailOf_whole fixture, isText_nil, nofun⟩

theorem Valid.before_skipBlank {loop : Loop} (valid : loop.Valid fixture) :
    IsText (fixture.take loop.remainder.skipBlank.cursor.index) := by
  rw [valid.tail.take_skipBlank]
  exact valid.before.append (Scan.isText_blanks _)

/-- A pass keeps what lies before the cursor a text. -/
theorem valid_of_pass {loop later : Loop} (valid : loop.Valid fixture)
    (passed : loop.pass config = .next later) : later.Valid fixture := by
  have trimmed := valid.tail.skipBlank
  have before := valid.before_skipBlank
  obtain ⟨_, _, ⟨_, progress, remainder⟩ | ⟨chunk, cut, taken⟩⟩ := pass_eq_next passed
  · exact ⟨remainder ▸ trimmed, remainder ▸ before, progress ▸ valid.recorded⟩
  · obtain ⟨text, encoded, _⟩ := Progress.take_eq_ok_iff.mp taken
    obtain ⟨tail, right, slice⟩ := trimmed.cut cut
    refine ⟨tail, ?_, fun statement member => ?_⟩
    · rw [trimmed.take_cut cut]
      exact before.append ⟨text, encoded⟩
    · rcases Progress.mem_recorded_of_take taken member with old | ⟨atLeft, atRight, source⟩
      · exact valid.recorded statement old
      · refine ⟨⟨text, source.trans encoded⟩, ?_⟩
        rw [Segment.bytes, Statement.extent, atLeft, atRight, right, Nat.add_sub_cancel_left,
          source]
        exact slice

/-- What lies before the cursor is a text at every loop that is reached. -/
theorem valid_of_after {passes : Nat} {loop : Loop}
    (reached : (start config fixture).after config passes = some loop) : loop.Valid fixture :=
  after_induction (fun _ _ => valid_of_pass) (valid_start config fixture) reached

end Loop

/-! ### A whole build -/

namespace Test

variable {name : String} {fixture : Bytes}

/-- A fixture that builds is a text, and so is each of its statements. -/
theorem isText_of_build {config : Config} {test : Test}
    (built : build config name fixture = .ok test) :
    IsText fixture ∧ ∀ statement ∈ test.statements,
      IsText statement.source ∧ statement.source = statement.extent.bytes fixture := by
  obtain ⟨passes, last, reached, ends⟩ := Loop.finish_eq_last config (Loop.start config fixture)
  have valid := Loop.valid_of_after reached
  rw [build] at built
  rcases ends with ⟨progress, passed, finished⟩ | ⟨stop, _, stopped⟩
  · obtain ⟨blank, rfl⟩ := Loop.pass_eq_finished passed
    rw [finished] at built
    simp only at built
    split at built
    · cases built
    · cases built
      refine ⟨?_, fun statement member => valid.recorded statement (List.mem_reverse.mp member)⟩
      have atEnd := valid.tail.skipBlank.length
      rw [blank, List.length_nil, Nat.add_zero] at atEnd
      have whole := valid.before_skipBlank
      rwa [atEnd, List.take_length] at whole
  · rw [stopped] at built
    cases built

/-- A chunk that is refused as no text shows the first fault of the fixture. -/
theorem isLongestText_of_build {limit offset : Nat} {called text : String} {left right : Position}
    (built : build { limit := limit } name fixture =
      .error (.refused called left right (.invalidUtf8 offset) text)) :
    IsLongestText fixture (left.index + offset) ∧ ¬IsText fixture := by
  let config : Config := { limit := limit }
  obtain ⟨passes, last, reached, ends⟩ := Loop.finish_eq_last config (Loop.start config fixture)
  have valid := Loop.valid_of_after reached
  have failed : build config name fixture = _ := built
  rw [build] at failed
  rcases ends with ⟨progress, _, finished⟩ | ⟨stop, passed, stopped⟩
  · rw [finished] at failed
    simp only at failed
    split at failed
    · cases failed
    · cases failed
  · rw [stopped] at failed
    obtain ⟨_, ⟨_, rfl⟩ | ⟨chunk, rest, cause, cut, refused, rfl⟩⟩ := Loop.pass_eq_stopped passed
    · cases failed
    · cases failed
      exact Remainder.isLongestText_of_cut valid.tail.skipBlank valid.before_skipBlank cut
        (Progress.decode_of_take_eq_invalidUtf8 refused)

/-- The statement that a failed run tells is one of the test. -/
theorem exists_of_run_eq_error {σ : Type u} {transaction : Transaction σ} {test : Test}
    {state : σ} {failure : RunError}
    (failed : (test.run transaction state).result = .error failure) :
    ∃ statement ∈ test.statements, failure.left = statement.left ∧
      failure.right = statement.right ∧ failure.statement = statement.text := by
  rw [run] at failed
  rcases exists_passing_or_failing transaction state test.statements with
    ⟨calls, last, passing⟩ | ⟨calls, last, other, failing⟩
  · rw [passing.runStatements_eq] at failed
    cases failed
  · rw [failing.runStatements_eq] at failed
    cases failed
    obtain ⟨_, statement, _, _, _, _, statements, _, _, _, left, right, text⟩ := failing
    refine ⟨statement, ?_, left, right, text⟩
    rw [statements]
    exact List.mem_append_right _ List.mem_cons_self

/-- **All of a fixture is text, or it does not build.** Whatever the delimiter, the interpreters and
the limit are, a fixture that builds is valid UTF-8 as a whole, and the texts that statements,
listings and failed runs show encode the bytes of the statement in the fixture. With the usual
delimiter and the usual chain, a build is refused for bytes that are no text only if the fixture is
none, and then the place of the statement and the offset in it add up to the length of the longest
beginning of the fixture that is a text. The interpreters of that chain never refuse a text for this
cause: only the decoding of the whole statement does. -/
theorem text_all_or_nothing (config : Config) (limit : Nat) (name : String) (fixture : Bytes) :
    (∀ test, build config name fixture = .ok test →
      (∃ text, fixture = encode text) ∧
      (∀ statement ∈ test.statements,
        encode statement.text = statement.extent.bytes fixture ∧
        encode statement.summary.source = statement.extent.bytes fixture) ∧
      ∀ {σ : Type u} (transaction : Transaction σ) (state : σ) (failure : RunError),
        (test.run transaction state).result = .error failure →
        ∃ statement ∈ test.statements,
          failure.left = statement.left ∧ failure.right = statement.right ∧
          encode failure.statement = statement.extent.bytes fixture) ∧
    (∀ called left right offset text,
      build { limit := limit } name fixture =
        .error (.refused called left right (.invalidUtf8 offset) text) →
      ¬(∃ text, fixture = encode text) ∧ IsLongestText fixture (left.index + offset)) ∧
    (∀ (progress : Progress) (chunk : Chunk) (offset : Nat),
      progress.take standard chunk = .error (.invalidUtf8 offset) →
      decode chunk.source = .error offset) ∧
    ∀ (chunk : Chunk), (∃ text, chunk.source = encode text) →
      ∀ interpreter ∈ standard, ∀ context offset,
        interpreter context chunk.probe ≠ .error (.invalidUtf8 offset) := by
  refine ⟨fun test built => ?_, fun called left right offset text built => ?_,
    fun progress chunk offset => Progress.decode_of_take_eq_invalidUtf8,
    fun chunk valid interpreter member context => ?_⟩
  · obtain ⟨whole, statements⟩ := isText_of_build built
    have shown : ∀ statement ∈ test.statements,
        encode statement.text = statement.extent.bytes fixture := by
      intro statement member
      obtain ⟨valid, slice⟩ := statements statement member
      rw [← slice]
      exact encode_lossy valid
    refine ⟨whole, fun statement member => ⟨shown statement member, shown statement member⟩,
      fun transaction state failure failed => ?_⟩
    obtain ⟨statement, member, left, right, text⟩ := exists_of_run_eq_error failed
    exact ⟨statement, member, left, right, text ▸ shown statement member⟩
  · obtain ⟨longest, fault⟩ := isLongestText_of_build built
    exact ⟨fault, longest⟩
  · exact readable_of_mem_standard member (Scan.isText_afterComments valid)

/-- Accents in comments and statements, and a euro sign of which the last byte is missing. -/
theorem text_all_or_nothing_of_accents :
    let valid := encode "-- é\nSELECT 'é';\nassert è 1"
    let broken := encode "SELECT 'é';\n/* " ++ 0xE2 :: 0x82 :: encode ";\nSELECT 2"
    let refusing : Transaction Unit := ⟨fun _ => (.error "no", ·), fun _ => (.error "no", ·)⟩
    let plain : Config := { limit := 2, interpreters := [] }
    let chunk : Chunk := ⟨.start, ⟨0, 1⟩, [0xE8]⟩
    let assertion : Chunk := ⟨.start, ⟨0, 11⟩, encode "assert è 1"⟩
    (∃ test failure, build plain "t" valid = .ok test ∧
      (∃ text, valid = encode text) ∧
      test.statements.map Statement.text = ["-- é\nSELECT 'é'", "assert è 1"] ∧
      (∀ statement ∈ test.statements,
        encode statement.text = statement.extent.bytes valid) ∧
      (test.run refusing ()).result = .error failure ∧
      ∃ statement ∈ test.statements, encode failure.statement = statement.extent.bytes valid) ∧
    (∃ text, build { limit := 2 } "t" broken =
        .error (.refused "t" ⟨1, 13⟩ ⟨1, 18⟩ (.invalidUtf8 3) text) ∧
      IsLongestText broken 16) ∧
    (Progress.start.take standard chunk = .error (.invalidUtf8 0) ∧
      decode chunk.source = .error 0) ∧
    assert .empty assertion.probe ≠ .error (.invalidUtf8 0) := by
  intro valid broken refusing plain chunk assertion
  obtain ⟨builds, _⟩ := text_all_or_nothing.{0} plain 2 "t" valid
  obtain ⟨_, faults, decodes, reads⟩ := text_all_or_nothing.{0} plain 2 "t" broken
  refine ⟨?_, ?_, ?_, reads assertion ⟨_, rfl⟩ assert (.tail _ (.head _)) .empty 0⟩
  · have told : (build plain "t" valid).toOption.map (fun test =>
        (test.statements.map Statement.text, failure? (test.run refusing ()).result)) =
        some (["-- é\nSELECT 'é'", "assert è 1"],
          some ⟨.start, ⟨1, 17⟩, "-- é\nSELECT 'é'", .execFailed "no"⟩) := by
      decide +kernel
    obtain ⟨test, built, parts⟩ := exists_of_toOption told
    obtain ⟨texts, fails⟩ := Prod.mk.inj parts
    have failed := failure?_eq_some_iff.mp fails
    obtain ⟨whole, shown, failures⟩ := builds test built
    obtain ⟨statement, member, _, _, same⟩ := failures refusing () _ failed
    exact ⟨test, _, built, whole, texts, fun statement member => (shown statement member).1, failed,
      statement, member, same⟩
  · have told : failure? (build { limit := 2 } "t" broken) =
        some (.refused "t" ⟨1, 13⟩ ⟨1, 18⟩ (.invalidUtf8 3) (lossy broken)) := by
      decide +kernel
    have refused := failure?_eq_some_iff.mp told
    exact ⟨_, refused, (faults _ _ _ _ _ refused).2⟩
  · have told : failure? (Progress.start.take standard chunk) = some (.invalidUtf8 0) := by
      decide +kernel
    have refused := failure?_eq_some_iff.mp told
    exact ⟨refused, decodes .start chunk 0 refused⟩

end Test

end SqlFixture
