import SqlFixture.Proofs.Outcome

/-
**The global split of a fixture.**

The loop looks at shorter and shorter remainders. The same chunks come out if the terminators are
judged once, on the whole of the fixture, and the segments between them lose their leading blanks.

* `Scan.isTerminator`: the bytes that end a statement, `Scan.statementEnd_first` finds the first;
* `Segment.ofFixture`: the global split;
* `Segment.remaining`: the part of it behind an index, which passes over a blank byte
  (`remaining_of_blank`) and yields a segment at any other one (`remaining_of_solid`);
* `Segment.chunks_eq_ofFixture`: the chunks are the segments, and the limit is felt exactly if there
  are more segments than it says.
-/

namespace SqlFixture

/-! ### Terminators -/

namespace Scan

/-- Whether the byte at an index ends a statement: it is a semicolon, and all bytes behind it up to
the next newline or the end are padding. -/
def isTerminator (bytes : Bytes) (index : Nat) : Bool :=
  bytes[index]? == some semicolon &&
    ((bytes.drop (index + 1)).takeWhile (· != newline)).all isPadding

theorem endsLine_eq_takeWhile (bytes : Bytes) :
    endsLine bytes = (bytes.takeWhile (· != newline)).all isPadding := by
  induction bytes with
  | nil => rfl
  | cons byte rest ih =>
    by_cases isNewline : byte = newline
    · simp [endsLine, isNewline]
    · simp [endsLine, isNewline, ih]

theorem isTerminator_zero (byte : UInt8) (rest : Bytes) :
    isTerminator (byte :: rest) 0 = (byte == semicolon && endsLine rest) := by
  rw [endsLine_eq_takeWhile]
  rfl

theorem isTerminator_drop (bytes : Bytes) (start index : Nat) :
    isTerminator (bytes.drop start) index = isTerminator bytes (start + index) := by
  rw [isTerminator, isTerminator, List.getElem?_drop, List.drop_drop, Nat.add_assoc]

/-- The end of a statement is the first terminator, or the end of the bytes if there is none. -/
theorem statementEnd_first (bytes : Bytes) :
    (∀ index < (statementEnd bytes).index, isTerminator bytes index = false) ∧
      ((statementEnd bytes).index < bytes.length →
        isTerminator bytes (statementEnd bytes).index = true) := by
  induction bytes with
  | nil =>
    rw [statementEnd_nil]
    exact ⟨fun index below => absurd below (Nat.not_lt_zero index), nofun⟩
  | cons byte rest ih =>
    rw [statementEnd_cons]
    by_cases ends : byte = semicolon ∧ endsLine rest
    · rw [if_pos ends]
      refine ⟨fun index below => absurd below (Nat.not_lt_zero index), fun _ => ?_⟩
      rw [Position.start_index, isTerminator_zero, ends.1, ends.2]
      rfl
    · rw [if_neg ends]
      rw [index_advance_add]
      refine ⟨fun index below => ?_, fun within => ?_⟩
      · cases index with
        | zero =>
          rw [isTerminator_zero]
          by_cases same : byte = semicolon
          · have unended : endsLine rest = false := by simpa [same] using ends
            rw [unended, Bool.and_false]
          · rw [beq_false_of_ne same, Bool.false_and]
        | succ index => exact ih.1 index (Nat.lt_of_succ_lt_succ below)
      · exact ih.2 (Nat.lt_of_succ_lt_succ within)

/-- A statement that begins with a byte that is not blank has that byte. -/
theorem statementEnd_index_ne_zero {byte : UInt8} {rest : Bytes} (solid : isBlank byte = false) :
    (statementEnd (byte :: rest)).index ≠ 0 := by
  have different : byte ≠ semicolon := by
    rintro rfl
    exact absurd solid (by decide)
  rw [statementEnd_cons, if_neg (fun ends => different ends.1)]
  show 1 + (statementEnd rest).index ≠ 0
  omega

end Scan

/-! ### Segments -/

/-- A stretch of a fixture: the bytes from one index up to another. -/
@[ext]
structure Segment where
  start : Nat
  stop : Nat
deriving Repr, DecidableEq

/-- The stretch that a chunk takes up. -/
def Chunk.extent (chunk : Chunk) : Segment := ⟨chunk.left.index, chunk.right.index⟩

namespace Segment

/-- The bytes of a segment. -/
def bytes (fixture : Bytes) (segment : Segment) : Bytes :=
  (fixture.drop segment.start).take (segment.stop - segment.start)

/-- The segments between cuts, each of which takes out one byte. -/
def between (start stop : Nat) : (cuts : List Nat) → List Segment
  | [] => [⟨start, stop⟩]
  | cut :: cuts => ⟨start, cut⟩ :: between (cut + 1) stop cuts

/-- A segment without its leading blanks. -/
def strip (fixture : Bytes) (segment : Segment) : Segment :=
  ⟨segment.start + ((segment.bytes fixture).takeWhile Scan.isBlank).length, segment.stop⟩

/-- Segments without their leading blanks, and none that is left empty. -/
def solid (fixture : Bytes) (segments : List Segment) : List Segment :=
  (segments.map (strip fixture)).filter fun segment => segment.start < segment.stop

/-- The terminators of a fixture, in order. -/
def terminators (fixture : Bytes) : List Nat :=
  (List.range fixture.length).filter (Scan.isTerminator fixture)

/-- The global split: what is solid between the terminators. -/
def ofFixture (fixture : Bytes) : List Segment :=
  solid fixture (between 0 fixture.length (terminators fixture))

/-! ### The split behind an index -/

/-- The terminators from an index on. -/
def terminatorsFrom (fixture : Bytes) (index : Nat) : List Nat :=
  (List.range' index (fixture.length - index)).filter (Scan.isTerminator fixture)

/-- What is solid between the terminators from an index on. -/
def remaining (fixture : Bytes) (index : Nat) : List Segment :=
  solid fixture (between index fixture.length (terminatorsFrom fixture index))

theorem remaining_zero (fixture : Bytes) : remaining fixture 0 = ofFixture fixture := by
  rw [remaining, terminatorsFrom, Nat.sub_zero, ← List.range_eq_range']
  rfl

variable {fixture : Bytes}

theorem terminatorsFrom_eq {index : Nat} (within : index < fixture.length) :
    terminatorsFrom fixture index =
      if Scan.isTerminator fixture index then index :: terminatorsFrom fixture (index + 1)
      else terminatorsFrom fixture (index + 1) := by
  have count : fixture.length - index = fixture.length - (index + 1) + 1 := by omega
  rw [terminatorsFrom, count, List.range'_succ, List.filter_cons]
  rfl

theorem terminatorsFrom_length : terminatorsFrom fixture fixture.length = [] := by
  rw [terminatorsFrom, Nat.sub_self]
  rfl

/-- Indices that are no terminators are passed over. -/
theorem terminatorsFrom_of_none {first last : Nat} (ordered : first ≤ last)
    (within : last ≤ fixture.length)
    (none : ∀ index, first ≤ index → index < last → Scan.isTerminator fixture index = false) :
    terminatorsFrom fixture first = terminatorsFrom fixture last := by
  induction ordered with
  | refl => rfl
  | @step last ordered ih =>
    have here : Scan.isTerminator fixture last = false := none last ordered (Nat.lt_succ_self _)
    rw [ih (Nat.le_of_succ_le within) fun index low high => none index low (Nat.lt_succ_of_lt high),
      terminatorsFrom_eq within, here]
    rfl

theorem le_of_mem_terminatorsFrom {index cut : Nat} (member : cut ∈ terminatorsFrom fixture index) :
    index ≤ cut := by
  obtain ⟨inRange, _⟩ := List.mem_filter.mp member
  exact (List.mem_range'_1.mp inRange).1

/-- A split begins with the segment up to the first cut, and the others do not depend on where. -/
theorem exists_between (stop : Nat) (cuts : List Nat) :
    ∃ others, ∀ start, between start stop cuts = ⟨start, cuts.headD stop⟩ :: others := by
  cases cuts with
  | nil => exact ⟨[], fun _ => rfl⟩
  | cons cut cuts => exact ⟨between (cut + 1) stop cuts, fun _ => rfl⟩

theorem strip_stop (segment : Segment) : (strip fixture segment).stop = segment.stop := rfl

theorem solid_cons (segment : Segment) (segments : List Segment) :
    solid fixture (segment :: segments) =
      if (strip fixture segment).start < segment.stop then
        strip fixture segment :: solid fixture segments
      else solid fixture segments := by
  rw [solid, List.map_cons, List.filter_cons, strip_stop]
  by_cases left : (strip fixture segment).start < segment.stop
  · rw [if_pos left, if_pos (decide_eq_true left)]
    rfl
  · rw [if_neg left, if_neg (fun yes => left (of_decide_eq_true yes))]
    rfl

theorem start_le_strip (segment : Segment) : segment.start ≤ (strip fixture segment).start :=
  Nat.le_add_right _ _

/-- A terminator itself adds nothing to the split. -/
theorem remaining_of_terminator {index : Nat} (within : index < fixture.length)
    (ends : Scan.isTerminator fixture index = true) :
    remaining fixture index = remaining fixture (index + 1) := by
  have empty : ¬(strip fixture ⟨index, index⟩).start < index :=
    Nat.not_lt.mpr (start_le_strip ⟨index, index⟩)
  rw [remaining, terminatorsFrom_eq within, if_pos ends, between, solid_cons, if_neg empty]
  rfl

theorem remaining_length : remaining fixture fixture.length = [] := by
  have empty : ¬(strip fixture ⟨fixture.length, fixture.length⟩).start < fixture.length :=
    Nat.not_lt.mpr (start_le_strip ⟨fixture.length, fixture.length⟩)
  rw [remaining, terminatorsFrom_length, between, solid_cons, if_neg empty]
  rfl

section Byte

variable {index : Nat} {byte : UInt8} {rest : Bytes} (here : fixture.drop index = byte :: rest)

include here

theorem lt_of_drop_eq_cons : index < fixture.length := by
  have count := congrArg List.length here
  rw [List.length_drop, List.length_cons] at count
  omega

theorem drop_succ : fixture.drop (index + 1) = rest := by
  rw [← List.drop_drop, here]
  rfl

theorem bytes_eq_cons {stop : Nat} (ordered : index < stop) :
    bytes fixture ⟨index, stop⟩ = byte :: bytes fixture ⟨index + 1, stop⟩ := by
  have count : stop - index = stop - (index + 1) + 1 := by omega
  simp only [bytes]
  rw [here, drop_succ here, count, List.take_succ_cons]

theorem strip_of_blank (blank : Scan.isBlank byte = true) {stop : Nat} (ordered : index < stop) :
    strip fixture ⟨index, stop⟩ = strip fixture ⟨index + 1, stop⟩ := by
  simp only [strip]
  rw [bytes_eq_cons here ordered, List.takeWhile_cons_of_pos blank, List.length_cons]
  ext
  · show index + (_ + 1) = index + 1 + _
    omega
  · rfl

theorem strip_of_solid (inked : Scan.isBlank byte = false) {stop : Nat} (ordered : index < stop) :
    strip fixture ⟨index, stop⟩ = ⟨index, stop⟩ := by
  simp only [strip]
  rw [bytes_eq_cons here ordered, List.takeWhile_cons_of_neg (by rw [inked]; exact nofun)]
  rfl

/-- A blank byte adds nothing to the split, whether or not it is a terminator. -/
theorem remaining_of_blank (blank : Scan.isBlank byte = true) :
    remaining fixture index = remaining fixture (index + 1) := by
  have within := lt_of_drop_eq_cons here
  by_cases ends : Scan.isTerminator fixture index
  · exact remaining_of_terminator within ends
  · obtain ⟨others, same⟩ :=
      exists_between fixture.length (terminatorsFrom fixture (index + 1))
    have ordered : index < (terminatorsFrom fixture (index + 1)).headD fixture.length := by
      cases cuts : terminatorsFrom fixture (index + 1) with
      | nil => exact within
      | cons cut later => exact le_of_mem_terminatorsFrom (by rw [cuts]; exact List.mem_cons_self)
    rw [remaining, remaining, terminatorsFrom_eq within, if_neg ends, same, same, solid_cons,
      solid_cons, strip_of_blank here blank ordered]

/-- At any other byte the split has the segment up to the next terminator. -/
theorem remaining_of_solid (inked : Scan.isBlank byte = false) {stop : Nat}
    (ordered : index < stop) (within : stop ≤ fixture.length)
    (none : ∀ between, index ≤ between → between < stop →
      Scan.isTerminator fixture between = false)
    (ends : stop < fixture.length → Scan.isTerminator fixture stop = true) :
    remaining fixture index = ⟨index, stop⟩ :: remaining fixture stop := by
  rw [remaining, terminatorsFrom_of_none (Nat.le_of_lt ordered) within none]
  rcases Nat.lt_or_eq_of_le within with inside | atEnd
  · rw [remaining_of_terminator inside (ends inside), terminatorsFrom_eq inside,
      if_pos (ends inside), between, solid_cons, strip_of_solid here inked ordered,
      if_pos ordered]
    rfl
  · rw [atEnd, remaining_length, terminatorsFrom_length, between, solid_cons, ← atEnd,
      strip_of_solid here inked ordered, if_pos ordered]
    rfl

end Byte

/-- Blank bytes add nothing to the split. -/
theorem remaining_of_blanks {before rest : Bytes} {index : Nat}
    (here : fixture.drop index = before ++ rest)
    (blank : ∀ byte ∈ before, Scan.isBlank byte = true) :
    remaining fixture index = remaining fixture (index + before.length) := by
  induction before generalizing index with
  | nil => rfl
  | cons byte before ih =>
    have first := remaining_of_blank here (blank byte List.mem_cons_self)
    have others := ih (drop_succ here) fun byte member => blank byte (List.mem_cons_of_mem _ member)
    rw [first, others, List.length_cons, Nat.add_assoc, Nat.add_comm 1]

/-! ### The chunks are the segments -/

theorem remaining_skipBlank {remainder : Remainder} (tail : remainder.TailOf fixture) :
    remaining fixture remainder.cursor.index =
      remaining fixture remainder.skipBlank.cursor.index := by
  have here : fixture.drop remainder.cursor.index =
      Scan.blanks remainder.bytes ++ Scan.afterBlanks remainder.bytes := by
    rw [Scan.blanks_append_afterBlanks, tail.bytes]
  exact remaining_of_blanks here fun _ => Scan.isBlank_of_mem_blanks

/-- The usual delimiter never stalls on what the blanks are skipped of. -/
theorem statementEnd_skipBlank_ne_zero {remainder : Remainder}
    (inked : remainder.skipBlank.bytes ≠ []) :
    (Scan.statementEnd remainder.skipBlank.bytes).index ≠ 0 := by
  obtain ⟨first, rest, bytes⟩ := List.exists_cons_of_ne_nil inked
  rw [bytes]
  exact Scan.statementEnd_index_ne_zero (Scan.isBlank_eq_false_of_afterBlanks_eq_cons bytes)

/-- One chunk is the first segment of the split. -/
theorem remaining_of_cut {remainder rest : Remainder} {chunk : Chunk}
    (tail : remainder.TailOf fixture) (inked : remainder.skipBlank.bytes ≠ [])
    (cut : remainder.skipBlank.cut? Scan.statementEnd = some (chunk, rest)) :
    remaining fixture remainder.cursor.index =
      chunk.extent :: remaining fixture rest.cursor.index := by
  have trimmed := tail.skipBlank
  obtain ⟨first, later, bytes⟩ := List.exists_cons_of_ne_nil inked
  obtain ⟨moved, left, source, right, cursor, _⟩ := Remainder.cut?_eq_some_iff.mp cut
  have size := trimmed.length
  have fits := Scan.statementEnd_index_le remainder.skipBlank.bytes
  have count : chunk.source.length = (Scan.statementEnd remainder.skipBlank.bytes).index := by
    rw [source, List.length_take, Nat.min_eq_left fits]
  have stop : chunk.right.index = remainder.skipBlank.cursor.index +
      (Scan.statementEnd remainder.skipBlank.bytes).index := by
    rw [right, ← count]
    rfl
  have judged (index : Nat) :
      Scan.isTerminator fixture (remainder.skipBlank.cursor.index + index) =
        Scan.isTerminator remainder.skipBlank.bytes index := by
    rw [trimmed.bytes, Scan.isTerminator_drop]
  obtain ⟨none, ends⟩ := Scan.statementEnd_first remainder.skipBlank.bytes
  rw [remaining_skipBlank tail, cursor, Chunk.extent, left]
  refine remaining_of_solid (trimmed.bytes.symm.trans bytes)
    (Scan.isBlank_eq_false_of_afterBlanks_eq_cons bytes) ?_ ?_ ?_ ?_
  · omega
  · omega
  · intro index low high
    have shift : index = remainder.skipBlank.cursor.index +
        (index - remainder.skipBlank.cursor.index) := by omega
    rw [shift, judged]
    exact none _ (by omega)
  · intro inside
    rw [stop, judged]
    exact ends (by omega)

/-- The chunks of a remainder are what is solid behind its cursor. -/
theorem cutting_eq_remaining {remainder : Remainder} (tail : remainder.TailOf fixture) :
    ((remainder.cutting Scan.statementEnd).chunks.map fun chunk => (chunk.extent, chunk.source)) =
        (remaining fixture remainder.cursor.index).map
          (fun segment => (segment, segment.bytes fixture)) ∧
      (remainder.cutting Scan.statementEnd).stall = none := by
  induction remainder using Remainder.cutting_induction Scan.statementEnd with
  | blank remainder blank =>
    have size := tail.skipBlank.length
    rw [blank, List.length_nil, Nat.add_zero] at size
    rw [Remainder.cutting_of_blank blank, remaining_skipBlank tail, size, remaining_length]
    exact ⟨rfl, rfl⟩
  | stall remainder inked stalled =>
    exact absurd (Remainder.cut?_eq_none_iff.mp stalled) (statementEnd_skipBlank_ne_zero inked)
  | cut remainder chunk rest inked cut ih =>
    obtain ⟨later, right, source⟩ := tail.skipBlank.cut cut
    obtain ⟨chunks, moving⟩ := ih later
    have slice : chunk.extent.bytes fixture = chunk.source := by
      rw [bytes, Chunk.extent, right, Nat.add_sub_cancel_left, ← source]
    rw [Remainder.cutting_of_cut inked cut, remaining_of_cut tail inked cut, List.map_cons,
      List.map_cons, chunks, slice]
    exact ⟨rfl, moving⟩

/-- The chunks of a fixture have the bytes of its segments. -/
theorem sources_eq_ofFixture (fixture : Bytes) :
    ((Remainder.whole fixture).cutting Scan.statementEnd).chunks.map Chunk.source =
      (ofFixture fixture).map (bytes fixture) := by
  have pairs := congrArg (List.map Prod.snd)
    (cutting_eq_remaining (Remainder.tailOf_whole fixture)).1
  rw [List.map_map, List.map_map] at pairs
  rw [← remaining_zero]
  exact pairs

/-- **The incremental split is the global one.** With the usual delimiter the chunks of a fixture are
the segments between its terminators, without leading blanks and without empty ones, and each chunk
has the bytes of its segment. That delimiter never stalls on a remainder of the loop, so that the
limit is the failure exactly if no chunk within it is refused and there are more segments. -/
theorem chunks_eq_ofFixture (fixture : Bytes) (limit : Nat) (interpreters : List Interpreter)
    (name : String) :
    (((Remainder.whole fixture).cutting Scan.statementEnd).chunks.map
        fun chunk => (chunk.extent, chunk.source)) =
      (ofFixture fixture).map (fun segment => (segment, segment.bytes fixture)) ∧
    ((Remainder.whole fixture).cutting Scan.statementEnd).stall = none ∧
    (∀ loop : Loop, loop.remainder.skipBlank.bytes = [] ∨
      (Scan.statementEnd loop.remainder.skipBlank.bytes).index ≠ 0) ∧
    ((∃ called reached position,
        Test.build ⟨limit, Scan.statementEnd, interpreters⟩ name fixture =
          .error (.iterationLimit called reached position)) ↔
      Config.refusal? ⟨limit, Scan.statementEnd, interpreters⟩ fixture = none ∧
        limit < (ofFixture fixture).length) := by
  obtain ⟨chunks, moving⟩ := cutting_eq_remaining (Remainder.tailOf_whole fixture)
  have start : (Remainder.whole fixture).cursor.index = 0 := rfl
  rw [start, remaining_zero] at chunks
  refine ⟨chunks, moving, fun loop => ?_, ?_⟩
  · by_cases blank : loop.remainder.skipBlank.bytes = []
    · exact .inl blank
    · exact .inr (statementEnd_skipBlank_ne_zero blank)
  · have count := congrArg List.length chunks
    rw [List.length_map, List.length_map] at count
    rw [Test.build_eq_iterationLimit_iff, ne_eq, Test.limitPlace?_eq_none_iff, ← count]
    simp only [moving, and_true, Nat.not_le]

end Segment

end SqlFixture
