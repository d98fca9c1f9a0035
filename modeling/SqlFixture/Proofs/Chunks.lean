import SqlFixture.Proofs.Loop

/-
**The chunks of a fixture, without a limit.**

The delimiter alone decides into which chunks a fixture falls: blanks are skipped and a chunk is cut
off, again and again, until nothing is left or the delimiter cuts off nothing. A build reads these
chunks in order, as many as its limit allows.

* `Remainder.cutting`: the chunks, and the place where the delimiter stalls if it does;
* `Progress.takeAll`: the chunks read one after the other;
* `Loop.finish_eq`: the loop reads the first chunks and stops where the next one would begin.
-/

namespace SqlFixture

/-! ### One cut -/

namespace Remainder

variable {delimiter : Delimiter}

/-- A cut divides the bytes at the mark, up to their end, and moves the cursor by it. -/
theorem cut?_eq_some_iff {remainder : Remainder} {chunk : Chunk} {rest : Remainder} :
    remainder.cut? delimiter = some (chunk, rest) ↔
      (delimiter remainder.bytes).index ≠ 0 ∧
      chunk.left = remainder.cursor ∧
      chunk.source = remainder.bytes.take (delimiter remainder.bytes).index ∧
      chunk.right =
        remainder.cursor + ⟨(delimiter remainder.bytes).line, chunk.source.length⟩ ∧
      rest.cursor = chunk.right ∧
      rest.bytes = remainder.bytes.drop (delimiter remainder.bytes).index := by
  obtain ⟨left, right, source⟩ := chunk
  obtain ⟨cursor, bytes⟩ := rest
  simp only [cut?]
  by_cases stalled : (delimiter remainder.bytes).index = 0
  · rw [if_pos stalled]
    exact ⟨nofun, fun moved => absurd stalled moved.1⟩
  · rw [if_neg stalled]
    simp only [Option.some.injEq, Prod.mk.injEq, Chunk.mk.injEq, mk.injEq]
    constructor
    · rintro ⟨⟨rfl, rfl, rfl⟩, rfl, rfl⟩
      exact ⟨stalled, rfl, rfl, rfl, rfl, rfl⟩
    · rintro ⟨_, rfl, rfl, rfl, rfl, rfl⟩
      exact ⟨⟨rfl, rfl, rfl⟩, rfl, rfl⟩

theorem cut?_eq_none_iff {remainder : Remainder} :
    remainder.cut? delimiter = none ↔ (delimiter remainder.bytes).index = 0 := by
  simp only [cut?]
  by_cases stalled : (delimiter remainder.bytes).index = 0
  · simp only [stalled, if_true]
  · simp only [stalled, if_false, reduceCtorEq]

/-- No byte is lost or added by a cut. -/
theorem source_append_bytes {remainder rest : Remainder} {chunk : Chunk}
    (cut : remainder.cut? delimiter = some (chunk, rest)) :
    chunk.source ++ rest.bytes = remainder.bytes := by
  obtain ⟨_, _, source, _, _, bytes⟩ := cut?_eq_some_iff.mp cut
  rw [source, bytes, List.take_append_drop]

theorem source_ne_nil {remainder rest : Remainder} {chunk : Chunk}
    (inked : remainder.bytes ≠ []) (cut : remainder.cut? delimiter = some (chunk, rest)) :
    chunk.source ≠ [] := by
  obtain ⟨moved, _, source, _⟩ := cut?_eq_some_iff.mp cut
  rw [source]
  intro nothing
  rcases List.take_eq_nil_iff.mp nothing with zero | empty
  · exact moved zero
  · exact inked empty

theorem skipBlank_skipBlank (remainder : Remainder) :
    remainder.skipBlank.skipBlank = remainder.skipBlank := by
  simp only [skipBlank, Scan.skipBlank, Scan.blanks_afterBlanks, Scan.afterBlanks_afterBlanks,
    Position.ofBytes_nil, Position.add_start]

/-- A cut leaves fewer bytes than there were before the blanks. -/
theorem length_lt_of_cut {remainder rest : Remainder} {chunk : Chunk}
    (inked : remainder.skipBlank.bytes ≠ [])
    (cut : remainder.skipBlank.cut? delimiter = some (chunk, rest)) :
    rest.bytes.length < remainder.bytes.length := by
  have source : 0 < chunk.source.length := List.length_pos_iff.mpr (source_ne_nil inked cut)
  have whole := congrArg List.length (source_append_bytes cut)
  have blanks := congrArg List.length (Scan.blanks_append_afterBlanks remainder.bytes)
  have trimmed : remainder.skipBlank.bytes = Scan.afterBlanks remainder.bytes := rfl
  rw [List.length_append] at whole blanks
  rw [trimmed] at whole
  omega

/-- The bytes of a remainder are what follows its cursor in the fixture. -/
structure TailOf (fixture : Bytes) (remainder : Remainder) : Prop where
  within : remainder.cursor.index ≤ fixture.length
  bytes : remainder.bytes = fixture.drop remainder.cursor.index

theorem tailOf_whole (fixture : Bytes) : (whole fixture).TailOf fixture :=
  ⟨Nat.zero_le _, rfl⟩

variable {fixture : Bytes} {remainder rest : Remainder} {chunk : Chunk}

theorem TailOf.length (tail : remainder.TailOf fixture) :
    remainder.cursor.index + remainder.bytes.length = fixture.length := by
  have within := tail.within
  rw [tail.bytes, List.length_drop]
  omega

theorem TailOf.skipBlank (tail : remainder.TailOf fixture) :
    remainder.skipBlank.TailOf fixture := by
  have whole := Scan.blanks_append_afterBlanks remainder.bytes
  have size := tail.length
  have moved : remainder.skipBlank.cursor.index =
      remainder.cursor.index + (Scan.blanks remainder.bytes).length := rfl
  refine ⟨?_, ?_⟩
  · rw [← whole, List.length_append] at size
    omega
  · show Scan.afterBlanks remainder.bytes = _
    rw [moved, ← List.drop_drop, ← tail.bytes]
    conv => rhs; arg 2; rw [← whole]
    exact List.drop_left.symm

/-- A cut leaves the tail behind the chunk, and the chunk is the stretch before it. -/
theorem TailOf.cut (tail : remainder.TailOf fixture)
    (cut : remainder.cut? delimiter = some (chunk, rest)) :
    rest.TailOf fixture ∧ chunk.right.index = chunk.left.index + chunk.source.length ∧
      chunk.source = (fixture.drop chunk.left.index).take chunk.source.length := by
  obtain ⟨_, left, source, right, cursor, bytes⟩ := cut?_eq_some_iff.mp cut
  have size := tail.length
  have moved : chunk.right.index = remainder.cursor.index + chunk.source.length := by
    rw [right]
    rfl
  have whole := source_append_bytes cut
  have lengths := congrArg List.length whole
  rw [List.length_append] at lengths
  refine ⟨⟨?_, ?_⟩, ?_, ?_⟩
  · rw [cursor, moved]
    omega
  · rw [cursor, moved, ← List.drop_drop, ← tail.bytes, ← whole, List.drop_left]
  · rw [moved, left]
  · rw [left, ← tail.bytes, ← whole, List.take_left]

end Remainder

/-! ### All cuts -/

/-- What cutting comes to when it goes on as long as it can. -/
structure Cutting where
  chunks : List Chunk
  /-- The place where the delimiter cuts off nothing, if it comes to that. -/
  stall : Option Position

/-- Skips blanks and cuts off a chunk until nothing is left or the delimiter stalls. -/
def Remainder.cutting (delimiter : Delimiter) (remainder : Remainder) : Cutting :=
  if _ : remainder.skipBlank.bytes = [] then ⟨[], none⟩
  else
    match _ : remainder.skipBlank.cut? delimiter with
    | none => ⟨[], some remainder.skipBlank.cursor⟩
    | some (chunk, rest) =>
      ⟨chunk :: (rest.cutting delimiter).chunks, (rest.cutting delimiter).stall⟩
termination_by remainder.bytes.length
decreasing_by all_goals exact Remainder.length_lt_of_cut ‹_› ‹_›

namespace Remainder

variable {delimiter : Delimiter}

theorem cutting_of_blank {remainder : Remainder} (blank : remainder.skipBlank.bytes = []) :
    remainder.cutting delimiter = ⟨[], none⟩ := by
  rw [cutting, dif_pos blank]

theorem cutting_of_stall {remainder : Remainder} (inked : remainder.skipBlank.bytes ≠ [])
    (stalled : remainder.skipBlank.cut? delimiter = none) :
    remainder.cutting delimiter = ⟨[], some remainder.skipBlank.cursor⟩ := by
  rw [cutting, dif_neg inked]
  split
  · rfl
  next cut => rw [stalled] at cut; cases cut

theorem cutting_of_cut {remainder rest : Remainder} {chunk : Chunk}
    (inked : remainder.skipBlank.bytes ≠ [])
    (cut : remainder.skipBlank.cut? delimiter = some (chunk, rest)) :
    remainder.cutting delimiter =
      ⟨chunk :: (rest.cutting delimiter).chunks, (rest.cutting delimiter).stall⟩ := by
  rw [cutting, dif_neg inked]
  split
  next stalled => rw [cut] at stalled; cases stalled
  next same =>
    rw [cut] at same
    cases same
    rfl

theorem cutting_skipBlank (remainder : Remainder) :
    remainder.skipBlank.cutting delimiter = remainder.cutting delimiter := by
  by_cases blank : remainder.skipBlank.bytes = []
  · rw [cutting_of_blank blank, cutting_of_blank (by rw [skipBlank_skipBlank, blank])]
  · cases cut : remainder.skipBlank.cut? delimiter with
    | none =>
      rw [cutting_of_stall blank cut, cutting_of_stall (by rwa [skipBlank_skipBlank])
        (by rwa [skipBlank_skipBlank]), skipBlank_skipBlank]
    | some parts =>
      rw [cutting_of_cut blank cut, cutting_of_cut (by rwa [skipBlank_skipBlank])
        (by rwa [skipBlank_skipBlank])]

/-- A property of remainders follows along the cuts. -/
theorem cutting_induction (delimiter : Delimiter) {Holds : Remainder → Prop}
    (blank : ∀ remainder, remainder.skipBlank.bytes = [] → Holds remainder)
    (stall : ∀ remainder, remainder.skipBlank.bytes ≠ [] →
      remainder.skipBlank.cut? delimiter = none → Holds remainder)
    (cut : ∀ remainder chunk rest, remainder.skipBlank.bytes ≠ [] →
      remainder.skipBlank.cut? delimiter = some (chunk, rest) → Holds rest → Holds remainder)
    (remainder : Remainder) : Holds remainder := by
  induction size : remainder.bytes.length using Nat.strongRecOn generalizing remainder with
  | _ length ih =>
    by_cases nothing : remainder.skipBlank.bytes = []
    · exact blank remainder nothing
    · cases found : remainder.skipBlank.cut? delimiter with
      | none => exact stall remainder nothing found
      | some parts =>
        obtain ⟨chunk, rest⟩ := parts
        have shorter : rest.bytes.length < length :=
          size ▸ length_lt_of_cut nothing found
        exact cut remainder chunk rest nothing found (ih _ shorter rest rfl)

/-- What each cut says of its chunk holds of all chunks, if it keeps what is known of the rest. -/
theorem forall_chunks (Known : Remainder → Prop) {Holds : Chunk → Prop} {remainder : Remainder}
    (known : Known remainder)
    (cut : ∀ remainder chunk rest, Known remainder → remainder.skipBlank.bytes ≠ [] →
      remainder.skipBlank.cut? delimiter = some (chunk, rest) → Holds chunk ∧ Known rest) :
    ∀ chunk ∈ (remainder.cutting delimiter).chunks, Holds chunk := by
  induction remainder using cutting_induction delimiter with
  | blank remainder blank =>
    rw [cutting_of_blank blank]
    exact fun _ member => absurd member List.not_mem_nil
  | stall remainder inked stalled =>
    rw [cutting_of_stall inked stalled]
    exact fun _ member => absurd member List.not_mem_nil
  | cut remainder chunk rest inked found ih =>
    obtain ⟨here, left⟩ := cut remainder chunk rest known inked found
    rw [cutting_of_cut inked found]
    exact List.forall_mem_cons.mpr ⟨here, ih left⟩

/-- There are no more chunks than bytes. -/
theorem length_chunks_le (delimiter : Delimiter) (remainder : Remainder) :
    (remainder.cutting delimiter).chunks.length ≤ remainder.bytes.length := by
  induction remainder using cutting_induction delimiter with
  | blank remainder blank =>
    rw [cutting_of_blank blank]
    exact Nat.zero_le _
  | stall remainder inked stalled =>
    rw [cutting_of_stall inked stalled]
    exact Nat.zero_le _
  | cut remainder chunk rest inked cut ih =>
    rw [cutting_of_cut inked cut]
    exact Nat.lt_of_le_of_lt ih (length_lt_of_cut inked cut)

/-- Every chunk begins with a byte that is not blank. -/
theorem begins_of_cut {remainder rest : Remainder} {chunk : Chunk}
    (inked : remainder.skipBlank.bytes ≠ [])
    (cut : remainder.skipBlank.cut? delimiter = some (chunk, rest)) :
    ∃ first later, chunk.source = first :: later ∧ Scan.isBlank first = false := by
  obtain ⟨moved, _, source, _⟩ := cut?_eq_some_iff.mp cut
  obtain ⟨first, later, bytes⟩ := List.exists_cons_of_ne_nil inked
  obtain ⟨index, positive⟩ := Nat.exists_eq_succ_of_ne_zero moved
  rw [positive, bytes, List.take_succ_cons] at source
  exact ⟨first, later.take index, source, Scan.isBlank_eq_false_of_afterBlanks_eq_cons bytes⟩

theorem begins_of_mem_chunks (delimiter : Delimiter) (remainder : Remainder) :
    ∀ chunk ∈ (remainder.cutting delimiter).chunks,
      ∃ first later, chunk.source = first :: later ∧ Scan.isBlank first = false :=
  forall_chunks (fun _ => True) trivial fun _ _ _ _ inked cut => ⟨begins_of_cut inked cut, trivial⟩

end Remainder

/-- Where cutting would go on behind the first `count` chunks: at the next chunk, or where the
delimiter stalls if there is none. -/
def Cutting.beyond? (cutting : Cutting) (count : Nat) : Option Position :=
  match cutting.chunks[count]? with
  | some chunk => some chunk.left
  | none => cutting.stall

/-! ### Reading the chunks -/

/-- Adds chunks one after the other, up to the first that is refused. -/
def Progress.takeAll (interpreters : List Interpreter) :
    Progress → List Chunk → Except (Chunk × StatementError) Progress
  | progress, [] => .ok progress
  | progress, chunk :: chunks =>
    match progress.take interpreters chunk with
    | .error cause => .error (chunk, cause)
    | .ok next => next.takeAll interpreters chunks

theorem Progress.takeAll_append (interpreters : List Interpreter) (progress : Progress)
    (first second : List Chunk) :
    progress.takeAll interpreters (first ++ second) =
      progress.takeAll interpreters first >>= fun next => next.takeAll interpreters second := by
  induction first generalizing progress with
  | nil => rfl
  | cons chunk first ih =>
    rw [List.cons_append, Progress.takeAll, Progress.takeAll]
    cases progress.take interpreters chunk with
    | error cause => rfl
    | ok next => exact ih next

namespace Loop

variable {config : Config}

/-- **The loop reads the first chunks of its remainder**, as many as its budget allows, and stops
where the next one would begin. -/
theorem finish_eq (loop : Loop) :
    loop.finish config =
      match loop.progress.takeAll config.interpreters
          ((loop.remainder.cutting config.delimiter).chunks.take loop.budget) with
      | .error (chunk, cause) => .error (.refused chunk cause)
      | .ok progress =>
        match (loop.remainder.cutting config.delimiter).beyond? loop.budget with
        | some position => .error (.limit position)
        | none => .ok progress := by
  obtain ⟨budget, progress, remainder⟩ := loop
  induction budget generalizing progress remainder with
  | zero =>
    by_cases blank : remainder.skipBlank.bytes = []
    · rw [finish_of_finished (pass_of_blank blank), Remainder.cutting_of_blank blank]
      rfl
    · rw [finish_of_stopped (pass_of_exhausted blank rfl)]
      cases cut : remainder.skipBlank.cut? config.delimiter with
      | none =>
        rw [Remainder.cutting_of_stall blank cut]
        rfl
      | some parts =>
        obtain ⟨chunk, rest⟩ := parts
        have left := (Remainder.cut?_eq_some_iff.mp cut).2.1
        rw [Remainder.cutting_of_cut blank cut, ← left]
        rfl
  | succ budget ih =>
    by_cases blank : remainder.skipBlank.bytes = []
    · rw [finish_of_finished (pass_of_blank blank), Remainder.cutting_of_blank blank]
      rfl
    · cases cut : remainder.skipBlank.cut? config.delimiter with
      | none =>
        rw [finish_of_next (pass_of_stall blank rfl cut), ih, Remainder.cutting_skipBlank,
          Remainder.cutting_of_stall blank cut, List.take_nil, List.take_nil]
        rfl
      | some parts =>
        obtain ⟨chunk, rest⟩ := parts
        rw [Remainder.cutting_of_cut blank cut, List.take_succ_cons, Progress.takeAll]
        cases taken : progress.take config.interpreters chunk with
        | error cause => rw [finish_of_stopped (pass_of_refusal blank rfl cut taken)]
        | ok next =>
          rw [finish_of_next (pass_of_chunk blank rfl cut taken), ih]
          rfl

end Loop

end SqlFixture
