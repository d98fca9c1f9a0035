import SqlFixture.Proofs.Relocation
import SqlFixture.Proofs.Segments
import SqlFixture.Proofs.Written

/-
**One fixture behind another.**

A fixture that ends with a semicolon at the end of a line falls into the same chunks whatever stands
behind it: no line of it is completed there. The last semicolon is left over by the last cut, and
what stands behind is read as if it stood alone, but for the positions and for the definitions that
are there already.

* `Scan.Closed`: the fixtures that end in this way;
* `Scan.Closed.statementEnd_append`: a statement of such a fixture ends where it ends alone;
* `Remainder.cutting_followedBy`, `Remainder.chunks_append`: the chunks of two fixtures, one behind
  the other;
* `Test.build_append`: a refusal of the first fixture stays, and the tests of both are joined.
-/

namespace SqlFixture

open Directive

/-! ### The end of the first fixture -/

namespace Scan

/-- At the end stand a semicolon, padding and a newline. -/
def Closed (bytes : Bytes) : Prop :=
  ∃ front padding, bytes = front ++ semicolon :: (padding ++ [newline]) ∧ padding.all isPadding

theorem endsLine_append_of_mem {line : Bytes} (broken : newline ∈ line) (more : Bytes) :
    endsLine (line ++ more) = endsLine line := by
  induction line with
  | nil => exact absurd broken List.not_mem_nil
  | cons byte line ih =>
    rw [List.cons_append, endsLine, endsLine]
    rcases List.mem_cons.mp broken with rfl | later
    · rfl
    · rw [ih later]

theorem Closed.newline_mem {byte : UInt8} {rest : Bytes} (closed : Closed (byte :: rest)) :
    newline ∈ rest := by
  obtain ⟨front, padding, whole, _⟩ := closed
  cases front with
  | nil =>
    obtain ⟨_, rfl⟩ := List.cons.inj whole
    exact List.mem_append_right _ (List.mem_singleton.mpr rfl)
  | cons first front =>
    obtain ⟨_, rfl⟩ := List.cons.inj whole
    exact List.mem_append_right _ (.tail _ (List.mem_append_right _ (List.mem_singleton.mpr rfl)))

/-- The first byte is the semicolon at the end, or the rest ends in the same way. -/
theorem Closed.tail {byte : UInt8} {rest : Bytes} (closed : Closed (byte :: rest)) :
    Closed rest ∨
      byte = semicolon ∧ endsLine rest = true ∧ ∀ other ∈ rest, isBlank other = true := by
  obtain ⟨front, padding, whole, blank⟩ := closed
  cases front with
  | nil =>
    obtain ⟨rfl, rfl⟩ := List.cons.inj whole
    have ends : endsLine (padding ++ [newline]) = true := by
      rw [endsLine_append, blank]
      exact Bool.or_true _
    refine .inr ⟨rfl, ends, fun other member => ?_⟩
    rcases List.mem_append.mp member with inside | last
    · rw [isBlank, List.all_eq_true.mp blank other inside, Bool.or_true, Bool.true_or]
    · rw [List.mem_singleton.mp last]
      rfl
  | cons first front =>
    obtain ⟨rfl, rfl⟩ := List.cons.inj whole
    exact .inl ⟨front, padding, rfl, blank⟩

/-- **A statement of a closed fixture ends where it ends alone**, and leaves a closed one. -/
theorem Closed.statementEnd_append {first : Bytes} (closed : Closed first) (second : Bytes) :
    statementEnd (first ++ second) = statementEnd first ∧
      Closed (first.drop (statementEnd first).index) := by
  induction first with
  | nil =>
    obtain ⟨front, padding, whole, _⟩ := closed
    exact absurd whole.symm (List.append_ne_nil_of_right_ne_nil _ (List.cons_ne_nil _ _))
  | cons byte rest ih =>
    rw [List.cons_append, statementEnd_cons, statementEnd_cons,
      endsLine_append_of_mem closed.newline_mem]
    by_cases ends : byte = semicolon ∧ endsLine rest
    · rw [if_pos ends, if_pos ends]
      exact ⟨rfl, closed⟩
    · rw [if_neg ends, if_neg ends]
      rcases closed.tail with later | ⟨same, padded, _⟩
      · obtain ⟨same, left⟩ := ih later
        rw [same, index_advance_add, List.drop_succ_cons]
        exact ⟨rfl, left⟩
      · exact absurd ⟨same, padded⟩ ends

/-- Behind its blanks, a closed fixture is closed if anything is left. -/
theorem Closed.afterBlanks {bytes : Bytes} (closed : Closed bytes)
    (inked : afterBlanks bytes ≠ []) : Closed (afterBlanks bytes) := by
  induction bytes with
  | nil => exact absurd rfl inked
  | cons byte rest ih =>
    have step : Scan.afterBlanks (byte :: rest) =
        if isBlank byte then Scan.afterBlanks rest else byte :: rest := List.dropWhile_cons
    rw [step] at inked ⊢
    split
    next skipped =>
      rw [if_pos skipped] at inked
      rcases closed.tail with later | ⟨_, _, blank⟩
      · exact ih later inked
      · refine absurd ?_ inked
        have nothing := afterBlanks_append blank []
        rwa [List.append_nil] at nothing
    · exact closed

end Scan

/-! ### The chunks of both -/

namespace Remainder

open Scan

variable {remainder rest : Remainder} {chunk : Chunk} (second : Bytes)

/-- The place behind the last byte. -/
def last (remainder : Remainder) : Position := remainder.cursor + Position.ofBytes remainder.bytes

/-- The remainder with more bytes behind it. -/
def followedBy (remainder : Remainder) : Remainder :=
  ⟨remainder.cursor, remainder.bytes ++ second⟩

theorem last_skipBlank (remainder : Remainder) : remainder.skipBlank.last = remainder.last := by
  show remainder.cursor + Position.ofBytes (blanks remainder.bytes) +
    Position.ofBytes (afterBlanks remainder.bytes) = _
  rw [Position.add_assoc, ← Position.ofBytes_append, blanks_append_afterBlanks]
  rfl

theorem last_of_cut (cut : remainder.cut? statementEnd = some (chunk, rest)) :
    rest.last = remainder.last := by
  obtain ⟨_, _, source, right, cursor, bytes⟩ := cut?_eq_some_iff.mp cut
  have fits := statementEnd_index_le remainder.bytes
  have count : chunk.source.length = (statementEnd remainder.bytes).index := by
    rw [source, List.length_take, Nat.min_eq_left fits]
  have mark : (⟨(statementEnd remainder.bytes).line, chunk.source.length⟩ : Position) =
      Position.ofBytes chunk.source := by
    rw [count, source]
    exact statementEnd_eq_ofBytes remainder.bytes
  rw [last, cursor, right, mark, Position.add_assoc, ← Position.ofBytes_append,
    source_append_bytes cut]
  rfl

theorem skipBlank_followedBy (inked : remainder.skipBlank.bytes ≠ []) :
    (remainder.followedBy second).skipBlank = remainder.skipBlank.followedBy second := by
  obtain ⟨skipped, left⟩ := blanks_append_of_ne_nil inked second
  simp only [followedBy, skipBlank, Scan.skipBlank, skipped, left]

theorem skipBlank_followedBy_of_blank (blank : remainder.skipBlank.bytes = []) :
    (remainder.followedBy second).skipBlank =
      (⟨remainder.last, second⟩ : Remainder).skipBlank := by
  have allBlank : ∀ byte ∈ remainder.bytes, isBlank byte = true :=
    isBlank_of_afterBlanks_eq_nil blank
  simp only [followedBy, skipBlank, Scan.skipBlank, blanks_append allBlank,
    afterBlanks_append allBlank, Position.ofBytes_append, last, Position.add_assoc]

/-- Where a statement ends as it does alone, the same is cut off. -/
theorem cut?_followedBy_of_eq
    (same : statementEnd (remainder.bytes ++ second) = statementEnd remainder.bytes)
    (cut : remainder.cut? statementEnd = some (chunk, rest)) :
    (remainder.followedBy second).cut? statementEnd = some (chunk, rest.followedBy second) := by
  obtain ⟨moved, left, source, right, cursor, bytes⟩ := cut?_eq_some_iff.mp cut
  have fits := statementEnd_index_le remainder.bytes
  refine cut?_eq_some_iff.mpr ?_
  have whole : (remainder.followedBy second).bytes = remainder.bytes ++ second := rfl
  rw [whole, same]
  refine ⟨moved, left, ?_, right, cursor, ?_⟩
  · rw [List.take_append_of_le_length fits, source]
  · rw [List.drop_append_of_le_length fits, ← bytes]
    rfl

/-- What is cut off a closed remainder does not depend on what follows. -/
theorem cut?_followedBy (closed : Closed remainder.bytes)
    (cut : remainder.cut? statementEnd = some (chunk, rest)) :
    (remainder.followedBy second).cut? statementEnd = some (chunk, rest.followedBy second) ∧
      Closed rest.bytes := by
  obtain ⟨same, remains⟩ := closed.statementEnd_append second
  obtain ⟨_, _, _, _, _, bytes⟩ := cut?_eq_some_iff.mp cut
  exact ⟨cut?_followedBy_of_eq second same cut, bytes ▸ remains⟩

/-- **The chunks of two fixtures**: those of the closed one, and then those of the other where it
stands. -/
theorem cutting_followedBy (closed : Closed remainder.bytes) :
    ((remainder.followedBy second).cutting statementEnd).chunks =
      (remainder.cutting statementEnd).chunks ++
        ((⟨remainder.last, second⟩ : Remainder).cutting statementEnd).chunks := by
  induction remainder using cutting_induction statementEnd with
  | blank remainder blank =>
    -- Nothing but blanks is left, and they are skipped together with those that follow.
    rw [← cutting_skipBlank, skipBlank_followedBy_of_blank second blank, cutting_skipBlank,
      cutting_of_blank blank, List.nil_append]
  | stall remainder inked stalled =>
    have mark := cut?_eq_none_iff.mp stalled
    exact absurd mark (Segment.statementEnd_skipBlank_ne_zero inked)
  | cut remainder chunk rest inked cut ih =>
    -- The cut leaves a closed remainder again, which carries the induction.
    obtain ⟨same, remains⟩ := cut?_followedBy second (closed.afterBlanks inked) cut
    have still : (remainder.followedBy second).skipBlank.bytes ≠ [] := by
      rw [skipBlank_followedBy second inked]
      exact List.append_ne_nil_of_left_ne_nil inked _
    rw [← skipBlank_followedBy second inked] at same
    rw [cutting_of_cut still same, cutting_of_cut inked cut, ih remains, last_of_cut cut,
      last_skipBlank, List.cons_append]

theorem chunks_append {first : Bytes} (closed : Closed first) :
    ((whole (first ++ second)).cutting statementEnd).chunks =
      ((whole first).cutting statementEnd).chunks ++
        ((whole second).cutting statementEnd).chunks.map
          (Chunk.behind (Position.ofBytes first)) := by
  have moved : (⟨(whole first).last, second⟩ : Remainder) =
      (whole second).behind (Position.ofBytes first) := by
    rw [last, behind, whole, whole, Position.start_add, Position.add_start]
  have closedWhole : Closed (whole first).bytes := closed
  have joined := cutting_followedBy second closedWhole
  rw [moved, cutting_behind] at joined
  exact joined

theorem stall_whole (fixture : Bytes) : ((whole fixture).cutting statementEnd).stall = none :=
  (Segment.cutting_eq_remaining (tailOf_whole fixture)).2

end Remainder

/-! ### The test of both -/

namespace Test

section

variable {limit : Nat} {name : String} {first second : Bytes} (closed : Scan.Closed first)
  (joint : String)

include closed

theorem build_append_of_refused {left right : Position} {cause : StatementError} {text : String}
    (refused : build { limit := limit } name first =
      .error (.refused name left right cause text)) :
    build { limit := limit } joint (first ++ second) =
      .error (.refused joint left right cause (Utf8.lossy (first ++ second))) := by
  obtain ⟨chunk, refusal, rfl, rfl⟩ := build_eq_refused refused
  have more := Remainder.chunks_append second closed
  have still : Config.refusal? { limit := limit } (first ++ second) = some (chunk, cause) := by
    rw [Config.refusal?, Config.chunks, more, List.take_append]
    exact Chunk.firstRefusal?_append refusal _
  exact build_of_refusal still

theorem build_append_of_ok {called : String} {front back : Test}
    (builtFirst : build { limit := limit } name first = .ok front)
    (builtSecond : build { limit := limit } called second = .ok back)
    (apart : front.context.Apart back.context)
    (unreached : ¬ReachesLimit { limit := limit } joint (first ++ second)) :
    ∃ test, build { limit := limit } joint (first ++ second) = .ok test ∧
      test.context.IsUnion front.context back.context ∧
      test.statements =
        front.statements ++ back.statements.map (Statement.behind (Position.ofBytes first)) := by
  obtain ⟨_, _, takenFirst, something, _⟩ := build_eq_ok_iff.mp builtFirst
  obtain ⟨_, _, takenSecond, _, _⟩ := build_eq_ok_iff.mp builtSecond
  let reached : Progress := ⟨front.context, front.statements.reverse⟩
  have nothingYet : reached.context.IsUnion front.context Progress.start.context := by
    show front.context.entries.Perm (front.context.entries ++ [])
    rw [List.append_nil]
  obtain ⟨added, context, recorded, taken, union⟩ :=
    Progress.takeAll_behind (Position.ofBytes first) nothingYet apart takenSecond
  have addedAll : added = back.statements.reverse := by
    rw [← List.append_nil added]
    exact recorded.symm
  have takenBoth : Progress.start.takeAll standard
      ((Remainder.whole (first ++ second)).cutting Scan.statementEnd).chunks =
      .ok ⟨context, added.map (Statement.behind (Position.ofBytes first)) ++
        front.statements.reverse⟩ := by
    rw [Remainder.chunks_append second closed, Progress.takeAll_append, takenFirst]
    exact taken
  have acting : added.map (Statement.behind (Position.ofBytes first)) ++
      front.statements.reverse ≠ [] :=
    List.append_ne_nil_of_right_ne_nil _ (mt List.reverse_eq_nil_iff.mp something)
  refine ⟨_, build_of_takeAll_of_unreached _ joint (Remainder.stall_whole _) takenBoth acting
    unreached, union, ?_⟩
  rw [addedAll, List.reverse_append, List.reverse_reverse, List.map_reverse, List.reverse_reverse]

end

/-- **Builds compose.** Let a fixture end with a semicolon at the end of a line, and another stand
behind it. A statement for which the first is refused is refused in both, at the same place. If both
build alone, with no key in common, and the limit is not too low, then both together build: their
definitions are united, and the statements of the second follow those of the first, further behind
by the newlines and the bytes of the first. -/
theorem build_append {first : Bytes} (closed : Scan.Closed first) (second : Bytes) (limit : Nat)
    (name called joint : String) :
    (∀ left right cause text,
      build { limit := limit } name first = .error (.refused name left right cause text) →
      ∃ failure, build { limit := limit } joint (first ++ second) = .error failure ∧
        failure = .refused joint left right cause (Utf8.lossy (first ++ second)) ∧
        failure.span? = (BuildError.refused name left right cause text).span?) ∧
    ∀ front back, build { limit := limit } name first = .ok front →
      build { limit := limit } called second = .ok back →
      front.context.Apart back.context →
      ¬ReachesLimit { limit := limit } joint (first ++ second) →
      ∃ test, build { limit := limit } joint (first ++ second) = .ok test ∧
        test.context.IsUnion front.context back.context ∧
        test.statements =
          front.statements ++ back.statements.map (Statement.behind (Position.ofBytes first)) := by
  constructor
  · intro left right cause text refused
    exact ⟨_, build_append_of_refused closed joint refused, rfl, rfl⟩
  · intro front back builtFirst builtSecond apart unreached
    exact build_append_of_ok closed joint builtFirst builtSecond apart unreached

/-- A refusal that stays, and two tests, each with a definition, that are joined. -/
theorem build_append_of_two_tests :
    let refused := asciiBytes "SELECT 1;\nassert b 2;\t\n"
    let first := asciiBytes "define a\nSELECT 1;\nassert a 1;;\n"
    let second := asciiBytes "-- c\ndefine b\nSELECT 2\n;\nassert b 2"
    (∃ failure, build { limit := 4 } "j" (refused ++ second) = .error failure ∧
      failure = .refused "j" ⟨1, 10⟩ ⟨1, 20⟩ (.assertUndefined "b")
        (Utf8.lossy (refused ++ second)) ∧
      failure.span? = some (10, 10)) ∧
    ∃ front back test, build { limit := 4 } "f" first = .ok front ∧
      build { limit := 4 } "s" second = .ok back ∧
      build { limit := 4 } "j" (first ++ second) = .ok test ∧
      front.context.keys = ["a"] ∧ back.context.keys = ["b"] ∧
      test.context.IsUnion front.context back.context ∧
      test.statements = front.statements ++ back.statements.map (Statement.behind ⟨3, 32⟩) := by
  intro refused first second
  constructor
  · have closed : Scan.Closed refused :=
      ⟨asciiBytes "SELECT 1;\nassert b 2", [Scan.tab], by decide, by decide⟩
    have told : (match build { limit := 4 } "f" refused with
        | .error failure => some failure
        | .ok _ => none) =
        some (.refused "f" ⟨1, 10⟩ ⟨1, 20⟩ (.assertUndefined "b") (Utf8.lossy refused)) := by
      decide +kernel
    cases built : build { limit := 4 } "f" refused with
    | ok test => rw [built] at told; cases told
    | error failure =>
      rw [built] at told
      cases told
      exact (build_append closed second 4 "f" "s" "j").1 _ _ _ _ built
  · have closed : Scan.Closed first :=
      ⟨asciiBytes "define a\nSELECT 1;\nassert a 1;", [], by decide, by decide⟩
    have frontTold : (build { limit := 4 } "f" first).toOption.map
        (fun test => test.context.keys) = some ["a"] := by decide +kernel
    have backTold : (build { limit := 4 } "s" second).toOption.map
        (fun test => test.context.keys) = some ["b"] := by decide +kernel
    have jointTold : (build { limit := 4 } "j" (first ++ second)).toOption.isSome := by
      decide +kernel
    obtain ⟨front, builtFront, frontKeys⟩ := exists_of_toOption frontTold
    obtain ⟨back, builtBack, backKeys⟩ := exists_of_toOption backTold
    have apart : front.context.Apart back.context := by
      unfold Dictionary.Apart
      rw [frontKeys, backKeys]
      decide
    have unreached : ¬ReachesLimit { limit := 4 } "j" (first ++ second) := by
      rintro ⟨_, _, _, failed⟩
      rw [failed] at jointTold
      cases jointTold
    obtain ⟨test, built, union, statements⟩ :=
      (build_append closed second 4 "f" "s" "j").2 front back builtFront builtBack apart unreached
    exact ⟨front, back, test, builtFront, builtBack, built, frontKeys, backKeys, union, statements⟩

end Test

end SqlFixture
