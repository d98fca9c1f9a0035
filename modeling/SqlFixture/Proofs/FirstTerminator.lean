import Mathlib.Logic.Relation
import Mathlib.Order.Bounds.Defs
import SqlFixture.Proofs.Segments

/-
**The first terminator, line by line.**

The search for the end of a statement goes through the lines of its input and looks at each of them
from its end. It ends, since each line that it comes to has fewer bytes left, and at each of them
the newlines and bytes before it are counted. What it finds is the first terminator of the whole
input, or the end of the input if there is none.

* `LineSearch.Reached`: the lines that a search comes to;
* `LineSearch.InStep`: place and bytes of a line agree, and it is cut within its bytes;
* `LineSearch.inStep_of_look`, `LineSearch.inStep_of_reached`: one line keeps this, so all do;
* `LineSearch.exists_last`: some line is the last one;
* `Scan.isLeast_statementEnd`: the first terminator is found, if there is any;
* `Scan.statementEnd_exact`: all this together.
-/

namespace SqlFixture.Scan

namespace LineSearch

variable {bytes : Bytes} {search later : LineSearch}

/-! ### The lines that are reached -/

/-- Whether the search for the end of a statement comes to a line. -/
def Reached (bytes : Bytes) : LineSearch → Prop :=
  Relation.ReflTransGen (fun search later => search.look = .next later) ⟨.start, bytes⟩

/-- The bytes that are left are those behind the place of the line, which counts what is before it.
The line and what is behind its newline are cut off within these bytes. -/
structure InStep (bytes : Bytes) (search : LineSearch) : Prop where
  within : search.position.index ≤ bytes.length
  rest : search.rest = bytes.drop search.position.index
  line : search.position.line = (bytes.take search.position.index).count newline
  cut : ∀ line behind, splitAround? newline search.rest = some (line, behind) →
    line.length + 1 ≤ search.rest.length ∧
      line = search.rest.take line.length ∧ behind = search.rest.drop (line.length + 1)

theorem InStep.place (inStep : search.InStep bytes) :
    search.position = Position.ofBytes (bytes.take search.position.index) := by
  ext
  · exact inStep.line
  · exact (List.length_take_of_le inStep.within).symm

theorem inStep_of_place (rest : search.rest = bytes.drop search.position.index)
    (place : search.position = Position.ofBytes (bytes.take search.position.index)) :
    search.InStep bytes := by
  refine ⟨?_, rest, congrArg Position.line place, fun line behind split => ?_⟩
  · rw [place]
    exact List.length_take_le' ..
  · obtain ⟨whole, _⟩ := splitAround?_eq_some_iff.mp split
    rw [whole]
    simp

theorem inStep_start (bytes : Bytes) : InStep bytes ⟨.start, bytes⟩ :=
  inStep_of_place rfl rfl

/-- **One line keeps place and bytes in step.** -/
theorem inStep_of_look (inStep : search.InStep bytes) (passed : search.look = .next later) :
    later.InStep bytes := by
  obtain ⟨line, whole, inLine, _, place, _⟩ := look_eq_next passed
  have stretch : Position.ofBytes (line ++ [newline]) = ⟨1, line.length + 1⟩ := by
    simp [Position.ofBytes, List.count_eq_zero.mpr inLine]
  have index : later.position.index = search.position.index + (line ++ [newline]).length := by
    rw [place, ← stretch]
    rfl
  have left : bytes.drop search.position.index = (line ++ [newline]) ++ later.rest := by
    rw [← inStep.rest, whole, List.append_assoc]
    rfl
  have before : bytes.take later.position.index =
      bytes.take search.position.index ++ (line ++ [newline]) := by
    rw [index, List.take_add, left, List.take_left]
  apply inStep_of_place
  · rw [index, ← List.drop_drop, left, List.drop_left]
  · rw [before, Position.ofBytes_append, stretch, ← inStep.place, place]

theorem inStep_of_reached (reached : Reached bytes search) : search.InStep bytes := by
  induction reached with
  | refl => exact inStep_start bytes
  | tail _ passed ih => exact inStep_of_look ih passed

/-! ### The last line -/

/-- **The search ends.** -/
theorem exists_last (search : LineSearch) :
    ∃ last, Relation.ReflTransGen (fun search later => look search = .next later) search last ∧
      last.look = .found search.finish := by
  induction search using LineSearch.finish.induct with
  | case1 search later passed ih =>
    obtain ⟨last, reached, found⟩ := ih
    exact ⟨last, .head passed reached, by rw [finish_of_next passed, found]⟩
  | case2 search position passed =>
    exact ⟨search, .refl, by rw [finish_of_found passed, passed]⟩

end LineSearch

/-! ### What is found -/

theorem isTerminator_of_length_le {bytes : Bytes} {index : Nat} (beyond : bytes.length ≤ index) :
    isTerminator bytes index = false := by
  unfold isTerminator
  rw [List.getElem?_eq_none beyond]
  rfl

/-- **The first terminator is found**, or the end of the bytes if there is none. -/
theorem isLeast_statementEnd (bytes : Bytes) :
    IsLeast {index | isTerminator bytes index = true} (statementEnd bytes).index ∨
      (∀ index, isTerminator bytes index = false) ∧
        (statementEnd bytes).index = bytes.length := by
  obtain ⟨none, ends⟩ := statementEnd_first bytes
  rcases Nat.lt_or_eq_of_le (statementEnd_index_le bytes) with inside | atEnd
  · refine .inl ⟨ends inside, fun index isEnd => Nat.le_of_not_lt fun before => ?_⟩
    have isEnd : isTerminator bytes index = true := isEnd
    rw [none index before] at isEnd
    cases isEnd
  · refine .inr ⟨fun index => ?_, atEnd⟩
    rcases Nat.lt_or_ge index bytes.length with inside | beyond
    · exact none index (by omega)
    · exact isTerminator_of_length_le beyond

/-- **The end of a statement is the first terminator, and the lines before it are counted.** If
there is no terminator, the statement goes up to the end of the bytes. The search comes to a last
line and finds this place there, and at no line on its way does it cut beyond the bytes. -/
theorem statementEnd_exact (bytes : Bytes) :
    (IsLeast {index | isTerminator bytes index = true} (statementEnd bytes).index ∨
      (∀ index, isTerminator bytes index = false) ∧
        (statementEnd bytes).index = bytes.length) ∧
    (statementEnd bytes).line = (bytes.take (statementEnd bytes).index).count newline ∧
    (∃ last, LineSearch.Reached bytes last ∧ last.look = .found (statementEnd bytes)) ∧
    ∀ search, LineSearch.Reached bytes search → search.InStep bytes := by
  refine ⟨isLeast_statementEnd bytes, ?_, LineSearch.exists_last _, ?_⟩
  · exact congrArg Position.line (statementEnd_eq_ofBytes bytes)
  · intro search reached
    exact LineSearch.inStep_of_reached reached

/-- The search ends behind the last newline, and that line counts. -/
example : statementEnd [semicolon, dash, newline, newline] = ⟨2, 4⟩ := by decide +kernel

end SqlFixture.Scan
