import SqlFixture.Proofs.Outcome

/-
**Places in a fixture are exact.**

The cursor of the loop is a running sum of positions that two scanners find in remainders. If the
delimiter counts the newlines that it cuts off, every such sum is the number of newlines and of
bytes before a place in the fixture.

* `Position.IsExact`: the line of a position is the number of newlines before its index;
* `Loop.Placed`: the cursor and the recorded statements of a loop are exact, kept by every pass
  (`Loop.placed_of_pass`);
* `Test.exposed`: the positions that the result of a build tells;
* `Test.places_exact`: all of them are exact, no sum goes beyond the length of the fixture, and they
  are ordered as their indices are.
-/

namespace SqlFixture

/-! ### Exact positions -/

namespace Position

/-- A position in a fixture whose line is the number of newlines before its index. -/
structure IsExact (fixture : Bytes) (position : Position) : Prop where
  within : position.index ≤ fixture.length
  line : position.line = (fixture.take position.index).count newline

variable {fixture : Bytes}

theorem isExact_start (fixture : Bytes) : start.IsExact fixture :=
  ⟨Nat.zero_le _, rfl⟩

/-- A stretch that follows an exact position leads to another one. -/
theorem IsExact.add {position : Position} (exact : position.IsExact fixture)
    {stretch rest : Bytes} (follows : fixture.drop position.index = stretch ++ rest) :
    (position + ofBytes stretch).IsExact fixture := by
  have whole : fixture = fixture.take position.index ++ (stretch ++ rest) := by
    rw [← follows, List.take_append_drop]
  have before : (fixture.take position.index).length = position.index := by
    rw [List.length_take, Nat.min_eq_left exact.within]
  have size := congrArg List.length follows
  rw [List.length_drop, List.length_append] at size
  refine ⟨?_, ?_⟩
  · have within := exact.within
    show position.index + stretch.length ≤ _
    omega
  · have taken : fixture.take (position.index + stretch.length) =
        fixture.take position.index ++ stretch := by
      rw [List.take_add, follows, List.take_left]
    show position.line + stretch.count newline =
      (fixture.take (position.index + stretch.length)).count newline
    rw [taken, List.count_append, exact.line]

/-- Lines do not exceed the length of the fixture either. -/
theorem IsExact.line_le {position : Position} (exact : position.IsExact fixture) :
    position.line ≤ fixture.length := by
  rw [exact.line]
  exact Nat.le_trans List.count_le_length (List.length_take_le' ..)

/-- A later place is on no earlier line. -/
theorem IsExact.line_mono {first second : Position} (exact : first.IsExact fixture)
    (exact' : second.IsExact fixture) (earlier : first.index ≤ second.index) :
    first.line ≤ second.line := by
  have taken : (fixture.take second.index).take first.index = fixture.take first.index := by
    rw [List.take_take, Nat.min_eq_left earlier]
  rw [exact.line, exact'.line, ← taken]
  exact (List.take_sublist ..).count_le newline

theorem IsExact.order_lt {first second : Position} (exact : first.IsExact fixture)
    (exact' : second.IsExact fixture) (earlier : first.index < second.index) :
    first.order second = .lt := by
  rw [order, Nat.compare_eq_lt.mpr earlier]
  rcases Nat.lt_or_eq_of_le (exact.line_mono exact' (Nat.le_of_lt earlier)) with before | same
  · rw [Nat.compare_eq_lt.mpr before]
    rfl
  · rw [Nat.compare_eq_eq.mpr same]
    rfl

theorem IsExact.order_gt {first second : Position} (exact : first.IsExact fixture)
    (exact' : second.IsExact fixture) (later : second.index < first.index) :
    first.order second = .gt := by
  rw [order, Nat.compare_eq_gt.mpr later]
  rcases Nat.lt_or_eq_of_le (exact'.line_mono exact (Nat.le_of_lt later)) with before | same
  · rw [Nat.compare_eq_gt.mpr before]
    rfl
  · rw [Nat.compare_eq_eq.mpr same.symm]
    rfl

/-- **Exact positions are ordered as their indices are.** -/
theorem IsExact.order_eq {first second : Position} (exact : first.IsExact fixture)
    (exact' : second.IsExact fixture) :
    first.order second = compare first.index second.index := by
  rcases Nat.lt_trichotomy first.index second.index with earlier | same | later
  · rw [exact.order_lt exact' earlier, Nat.compare_eq_lt.mpr earlier]
  · have lines : first.line = second.line := by rw [exact.line, exact'.line, same]
    rw [order, Nat.compare_eq_eq.mpr lines]
    rfl
  · rw [exact.order_gt exact' later, Nat.compare_eq_gt.mpr later]

end Position

/-! ### The loop -/

/-- A delimiter whose line is the number of newlines in the bytes that it cuts off. -/
def Delimiter.CountsLines (delimiter : Delimiter) : Prop :=
  ∀ bytes, (delimiter bytes).line = (bytes.take (delimiter bytes).index).count newline

theorem countsLines_statementEnd : Delimiter.CountsLines Scan.statementEnd := fun bytes =>
  congrArg Position.line (Scan.statementEnd_eq_ofBytes bytes)

namespace Remainder

variable {fixture : Bytes} {remainder rest : Remainder} {chunk : Chunk} {delimiter : Delimiter}

theorem TailOf.isExact_skipBlank (tail : remainder.TailOf fixture)
    (exact : remainder.cursor.IsExact fixture) : remainder.skipBlank.cursor.IsExact fixture := by
  have follows : fixture.drop remainder.cursor.index =
      Scan.blanks remainder.bytes ++ Scan.afterBlanks remainder.bytes := by
    rw [Scan.blanks_append_afterBlanks, tail.bytes]
  exact exact.add follows

theorem TailOf.isExact_cut (tail : remainder.TailOf fixture)
    (exact : remainder.cursor.IsExact fixture) (counts : delimiter.CountsLines)
    (cut : remainder.cut? delimiter = some (chunk, rest)) : chunk.right.IsExact fixture := by
  obtain ⟨_, _, source, right, _, _⟩ := cut?_eq_some_iff.mp cut
  have mark : chunk.right = remainder.cursor + Position.ofBytes chunk.source := by
    rw [right, counts, ← source]
    rfl
  have follows : fixture.drop remainder.cursor.index = chunk.source ++ rest.bytes := by
    rw [source_append_bytes cut, tail.bytes]
  rw [mark]
  exact exact.add follows

end Remainder

namespace Loop

variable {config : Config} {fixture : Bytes}

/-- The cursor and all recorded statements are where the loop says. -/
structure Placed (fixture : Bytes) (loop : Loop) : Prop where
  tail : loop.remainder.TailOf fixture
  cursor : loop.remainder.cursor.IsExact fixture
  recorded : ∀ statement ∈ loop.progress.recorded,
    statement.left.IsExact fixture ∧ statement.right.IsExact fixture

theorem placed_start (config : Config) (fixture : Bytes) : (start config fixture).Placed fixture :=
  ⟨Remainder.tailOf_whole fixture, Position.isExact_start fixture, nofun⟩

/-- A pass keeps all places exact. -/
theorem placed_of_pass (counts : config.delimiter.CountsLines) {loop later : Loop}
    (placed : loop.Placed fixture) (passed : loop.pass config = .next later) :
    later.Placed fixture := by
  have trimmed := placed.tail.skipBlank
  have cursor := placed.tail.isExact_skipBlank placed.cursor
  obtain ⟨_, _, ⟨_, progress, remainder⟩ | ⟨chunk, cut, taken⟩⟩ := pass_eq_next passed
  · exact ⟨remainder ▸ trimmed, remainder ▸ cursor, progress ▸ placed.recorded⟩
  · have right := trimmed.isExact_cut cursor counts cut
    obtain ⟨_, left, _, _, moved, _⟩ := Remainder.cut?_eq_some_iff.mp cut
    refine ⟨(trimmed.cut cut).1, moved ▸ right, fun statement member => ?_⟩
    rcases Progress.mem_recorded_of_take taken member with old | ⟨atLeft, atRight, _⟩
    · exact placed.recorded statement old
    · rw [atLeft, atRight, left]
      exact ⟨cursor, right⟩

/-- All places are exact at every loop that is reached. -/
theorem placed_of_after (counts : config.delimiter.CountsLines) {passes : Nat} {loop : Loop}
    (reached : (start config fixture).after config passes = some loop) : loop.Placed fixture :=
  after_induction (fun _ _ placed passed => placed_of_pass counts placed passed)
    (placed_start config fixture) reached

end Loop

/-! ### What a build tells -/

namespace Test

/-- The positions that the result of a build tells: those of its statements, of the refused one, or
of the limit. -/
def exposed : Except BuildError Test → List Position
  | .ok test => test.statements.flatMap fun statement => [statement.left, statement.right]
  | .error (.refused _ left right _ _) => [left, right]
  | .error (.iterationLimit _ _ position) => [position]
  | .error _ => []

theorem isExact_of_mem_exposed {config : Config} (counts : config.delimiter.CountsLines)
    {name : String} {fixture : Bytes} {place : Position}
    (member : place ∈ exposed (build config name fixture)) : place.IsExact fixture := by
  obtain ⟨passes, last, reached, ends⟩ :=
    Loop.finish_eq_last config (Loop.start config fixture)
  have placed := Loop.placed_of_after counts reached
  have trimmed := placed.tail.skipBlank
  have cursor := placed.tail.isExact_skipBlank placed.cursor
  rw [build] at member
  rcases ends with ⟨progress, passed, finished⟩ | ⟨stop, passed, stopped⟩
  · obtain ⟨_, rfl⟩ := Loop.pass_eq_finished passed
    rw [finished] at member
    simp only at member
    split at member
    · cases member
    · obtain ⟨statement, recorded, atEnd⟩ := List.mem_flatMap.mp member
      obtain ⟨left, right⟩ := placed.recorded statement (List.mem_reverse.mp recorded)
      rcases List.mem_cons.mp atEnd with rfl | last
      · exact left
      · rw [List.mem_singleton.mp last]
        exact right
  · rw [stopped] at member
    obtain ⟨_, ⟨_, rfl⟩ | ⟨chunk, rest, cause, cut, _, rfl⟩⟩ := Loop.pass_eq_stopped passed
    · rw [List.mem_singleton.mp member]
      exact cursor
    · have left := (Remainder.cut?_eq_some_iff.mp cut).2.1
      rcases List.mem_cons.mp member with rfl | last
      · exact left ▸ cursor
      · rw [List.mem_singleton.mp last]
        exact trimmed.isExact_cut cursor counts cut

/-- **Places are exact.** The usual delimiter counts the newlines that it cuts off. With any
delimiter that does, every position that a build tells is the number of newlines and of bytes before
a place in the fixture; none of the sums that the loop forms goes beyond the length of the fixture;
and the told positions are ordered as their indices are. -/
theorem places_exact (config : Config) (name : String) (fixture : Bytes) :
    Delimiter.CountsLines Scan.statementEnd ∧
    (config.delimiter.CountsLines →
      (∀ place ∈ exposed (build config name fixture),
        place.index ≤ fixture.length ∧
          place.line = (fixture.take place.index).count newline) ∧
      (∀ passes loop, (Loop.start config fixture).after config passes = some loop →
        loop.remainder.skipBlank.cursor.line ≤ fixture.length ∧
        loop.remainder.skipBlank.cursor.index ≤ fixture.length ∧
        ∀ chunk rest, loop.remainder.skipBlank.cut? config.delimiter = some (chunk, rest) →
          chunk.right.line ≤ fixture.length ∧ chunk.right.index ≤ fixture.length) ∧
      ∀ first ∈ exposed (build config name fixture),
        ∀ second ∈ exposed (build config name fixture),
          first.order second = compare first.index second.index) := by
  refine ⟨countsLines_statementEnd, fun counts => ⟨fun place member => ?_,
    fun passes loop reached => ?_, fun first member second member' => ?_⟩⟩
  · have exact := isExact_of_mem_exposed counts member
    exact ⟨exact.within, exact.line⟩
  · have placed := Loop.placed_of_after counts reached
    have cursor := placed.tail.isExact_skipBlank placed.cursor
    refine ⟨cursor.line_le, cursor.within, fun chunk rest cut => ?_⟩
    have right := placed.tail.skipBlank.isExact_cut cursor counts cut
    exact ⟨right.line_le, right.within⟩
  · exact (isExact_of_mem_exposed counts member).order_eq (isExact_of_mem_exposed counts member')

/-- Two statements with a line end inside the first and a bare semicolon between them. -/
theorem places_exact_of_two_statements :
    let config : Config := {}
    let fixture := asciiBytes "a\nb;\n\n;c"
    config.delimiter.CountsLines ∧
    exposed (build config "t" fixture) = [⟨0, 0⟩, ⟨1, 3⟩, ⟨3, 7⟩, ⟨3, 8⟩] ∧
    (7 ≤ fixture.length ∧ 3 = (fixture.take 7).count newline) ∧
    Position.order ⟨1, 3⟩ ⟨3, 7⟩ = compare 3 7 ∧
    ∃ loop, (Loop.start config fixture).after config 1 = some loop ∧
      loop.remainder.skipBlank.cursor.line ≤ fixture.length := by
  intro config fixture
  have told : exposed (build config "t" fixture) = [⟨0, 0⟩, ⟨1, 3⟩, ⟨3, 7⟩, ⟨3, 8⟩] := by
    decide +kernel
  obtain ⟨counts, exact⟩ := places_exact config "t" fixture
  obtain ⟨places, sums, ordered⟩ := exact counts
  refine ⟨counts, told, places ⟨3, 7⟩ ?_, ordered ⟨1, 3⟩ ?_ ⟨3, 7⟩ ?_, ?_⟩
  · rw [told]
    decide
  · rw [told]
    decide
  · rw [told]
    decide
  · have some_left : ((Loop.start config fixture).after config 1).isSome = true := by
      decide +kernel
    obtain ⟨loop, reached⟩ := Option.isSome_iff_exists.mp some_left
    exact ⟨loop, reached, (sums 1 loop reached).1⟩

end Test

end SqlFixture
