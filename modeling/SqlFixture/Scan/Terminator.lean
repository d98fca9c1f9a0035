import SqlFixture.Scan.Blank
import SqlFixture.Scan.Cut

/-
**The end of a statement.**

A semicolon ends a statement where only padding follows it on its line; a semicolon inside a line
belongs to the statement. Without such a semicolon the statement runs to the end of the input. The
search goes line by line and looks at each line from its end.

* `Scan.terminator?`: the semicolon that ends a line;
* `Scan.LineSearch.look`, `Scan.LineSearch.finish`: the search at one line, and at all of them;
* `Scan.statementEnd`: the position of the first semicolon that ends a statement;
* `Scan.statementEnd_cons`: the same search byte by byte, where `Scan.endsLine` says that only
  padding stands before the next newline or the end of the input;
* `Scan.statementEnd_eq_ofBytes`: the position is that behind the bytes before it.
-/

namespace SqlFixture.Scan

/-- The index of the semicolon that ends a line, once the padding behind it is ignored. -/
def terminator? (line : Bytes) : Option Nat :=
  match line.reverse.dropWhile isPadding with
  | [] => none
  | byte :: before => if byte = semicolon then some before.length else none

/-- Where the search for the end of a statement stands: at the beginning of a line. -/
structure LineSearch where
  /-- The place of the line. -/
  position : Position
  /-- The bytes from there on. -/
  rest : Bytes
deriving Repr, DecidableEq

/-- What looking at one line comes to. -/
inductive LineOutcome where
  /-- The search goes on at the next line. -/
  | next (search : LineSearch)
  /-- The statement ends here. -/
  | found (position : Position)
deriving Repr, DecidableEq

namespace LineSearch

/-- Looks at one line. A newline at the very end of the input begins no further line. -/
def look (search : LineSearch) : LineOutcome :=
  match splitAround? newline search.rest with
  | none => .found (search.position + ⟨0, (terminator? search.rest).getD search.rest.length⟩)
  | some (line, rest) =>
    match terminator? line with
    | some index => .found (search.position + ⟨0, index⟩)
    | none =>
      let next := search.position + ⟨1, line.length + 1⟩
      if rest.isEmpty then .found next else .next ⟨next, rest⟩

/-- What a line is that is not the last one: no semicolon ends it, and bytes follow its newline. -/
theorem look_eq_next {search later : LineSearch} (passed : search.look = .next later) :
    ∃ line, search.rest = line ++ newline :: later.rest ∧ newline ∉ line ∧
      terminator? line = none ∧ later.position = search.position + ⟨1, line.length + 1⟩ ∧
      later.rest ≠ [] := by
  unfold look at passed
  split at passed
  · cases passed
  next line rest split =>
    obtain ⟨whole, inLine⟩ := splitAround?_eq_some_iff.mp split
    split at passed
    · cases passed
    next unended =>
      dsimp only at passed
      split at passed
      · cases passed
      next more =>
        cases passed
        exact ⟨line, whole, inLine, unended, rfl, by simpa using more⟩

/-- Looks at one line after the other. What is left grows shorter, so that the search ends. -/
def finish (search : LineSearch) : Position :=
  match _ : search.look with
  | .next later => later.finish
  | .found position => position
termination_by search.rest.length
decreasing_by
  obtain ⟨line, whole, _⟩ := look_eq_next ‹search.look = .next later›
  rw [whole, List.length_append, List.length_cons]
  omega

theorem finish_of_next {search later : LineSearch} (passed : search.look = .next later) :
    search.finish = later.finish := by
  rw [finish]
  split
  next same =>
    rw [passed] at same
    cases same
    rfl
  next same => rw [passed] at same; cases same

theorem finish_of_found {search : LineSearch} {position : Position}
    (passed : search.look = .found position) : search.finish = position := by
  rw [finish]
  split
  next same => rw [passed] at same; cases same
  next same =>
    rw [passed] at same
    cases same
    rfl

end LineSearch

/-- The position of the first terminator, where `position` is that of the first byte. -/
def statementEndFrom (position : Position) (bytes : Bytes) : Position :=
  (LineSearch.mk position bytes).finish

/-- The position of the first terminator, or of the end of the input if it has none. -/
def statementEnd (bytes : Bytes) : Position := statementEndFrom .start bytes

/-! ### Byte by byte -/

/-- Whether the rest of a line is padding. -/
def endsLine : Bytes → Bool
  | [] => true
  | byte :: rest => byte == newline || isPadding byte && endsLine rest

theorem endsLine_eq_all {bytes : Bytes} (inLine : newline ∉ bytes) :
    endsLine bytes = bytes.all isPadding := by
  induction bytes with
  | nil => rfl
  | cons byte rest ih =>
    rw [List.mem_cons, not_or] at inLine
    rw [endsLine, List.all_cons, ih inLine.2, beq_false_of_ne (Ne.symm inLine.1), Bool.false_or]

theorem endsLine_line {line rest : Bytes} (inLine : newline ∉ line) :
    endsLine (line ++ newline :: rest) = line.all isPadding := by
  induction line with
  | nil => rfl
  | cons byte line ih =>
    rw [List.mem_cons, not_or] at inLine
    rw [List.cons_append, endsLine, List.all_cons, ih inLine.2,
      beq_false_of_ne (Ne.symm inLine.1), Bool.false_or]

theorem terminator?_eq_none_of_all {line : Bytes} (padding : line.all isPadding) :
    terminator? line = none := by
  have nothing : (line.reverse ++ []).dropWhile isPadding = [] :=
    List.dropWhile_append_of_pos fun byte member =>
      List.all_eq_true.mp padding byte (List.mem_reverse.mp member)
  rw [List.append_nil] at nothing
  rw [terminator?, nothing]

/-- The first byte of a line ends it if it is a semicolon and all others are padding. -/
theorem terminator?_cons (byte : UInt8) (line : Bytes) :
    terminator? (byte :: line) =
      if byte = semicolon ∧ line.all isPadding then some 0 else (terminator? line).map (· + 1) := by
  by_cases padding : line.all isPadding
  · rw [terminator?_eq_none_of_all padding, terminator?, List.reverse_cons,
      List.dropWhile_append_of_pos fun other member =>
        List.all_eq_true.mp padding other (List.mem_reverse.mp member)]
    by_cases same : byte = semicolon
    · rw [if_pos ⟨same, padding⟩, same]
      rfl
    · rw [if_neg (fun both => same both.1), List.dropWhile_cons, List.dropWhile_nil]
      cases isPadding byte
      · exact if_neg same
      · rfl
  · rw [if_neg (fun both => padding both.2), terminator?, terminator?, List.reverse_cons,
      List.dropWhile_append]
    cases found : line.reverse.dropWhile isPadding with
    | nil =>
      refine absurd (List.all_eq_true.mpr fun other member => ?_) padding
      have split := List.takeWhile_append_dropWhile (p := isPadding) (l := line.reverse)
      rw [found, List.append_nil] at split
      rw [← List.mem_reverse, ← split] at member
      exact List.all_eq_true.mp List.all_takeWhile other member
    | cons last before =>
      simp only [List.isEmpty_cons, Bool.false_eq_true, if_false, List.cons_append,
        List.length_append, List.length_singleton]
      split <;> rfl

theorem statementEndFrom_last (position : Position) {bytes : Bytes} (inLine : newline ∉ bytes) :
    statementEndFrom position bytes =
      position + ⟨0, (terminator? bytes).getD bytes.length⟩ := by
  refine LineSearch.finish_of_found ?_
  simp only [LineSearch.look, splitAround?_eq_none_iff.mpr inLine]

@[simp] theorem statementEndFrom_nil (position : Position) :
    statementEndFrom position [] = position :=
  statementEndFrom_last position List.not_mem_nil

theorem statementEndFrom_line (position : Position) {line : Bytes} (rest : Bytes)
    (inLine : newline ∉ line) :
    statementEndFrom position (line ++ newline :: rest) =
      match terminator? line with
      | some index => position + ⟨0, index⟩
      | none => statementEndFrom (position + ⟨1, line.length + 1⟩) rest := by
  have split : splitAround? newline (line ++ newline :: rest) = some (line, rest) :=
    splitAround?_eq_some_iff.mpr ⟨rfl, inLine⟩
  cases ended : terminator? line with
  | some index =>
    refine LineSearch.finish_of_found ?_
    simp only [LineSearch.look, split, ended]
  | none =>
    cases rest with
    | nil =>
      -- The newline is the last byte, and the search ends behind it.
      refine (LineSearch.finish_of_found ?_).trans (statementEndFrom_nil _).symm
      simp only [LineSearch.look, split, ended, List.isEmpty_nil, if_true]
    | cons byte rest =>
      refine LineSearch.finish_of_next ?_
      simp only [LineSearch.look, split, ended, List.isEmpty_cons, Bool.false_eq_true, if_false]

theorem advance_newline (position : Position) : position.advance newline = position + ⟨1, 1⟩ := rfl

theorem advance_of_ne (position : Position) {byte : UInt8} (different : byte ≠ newline) :
    position.advance byte = position + ⟨0, 1⟩ := by
  rw [Position.advance, if_neg different]
  rfl

/-- One byte of the search: the first byte is the terminator, or the search goes on behind it. -/
theorem statementEndFrom_cons (position : Position) (byte : UInt8) (rest : Bytes) :
    statementEndFrom position (byte :: rest) =
      if byte = semicolon ∧ endsLine rest then position
      else statementEndFrom (position.advance byte) rest := by
  by_cases isNewline : byte = newline
  · subst isNewline
    rw [if_neg (fun both => absurd both.1 (by decide)), advance_newline]
    exact statementEndFrom_line position rest List.not_mem_nil
  · have inWhole {line : Bytes} (inLine : newline ∉ line) : newline ∉ byte :: line := by
      rw [List.mem_cons, not_or]
      exact ⟨Ne.symm isNewline, inLine⟩
    rw [advance_of_ne position isNewline]
    cases split : splitAround? newline rest with
    | none =>
      have inLine := splitAround?_eq_none_iff.mp split
      rw [statementEndFrom_last _ (inWhole inLine), statementEndFrom_last _ inLine,
        terminator?_cons, endsLine_eq_all inLine, Position.add_assoc]
      by_cases ends : byte = semicolon ∧ rest.all isPadding
      · rw [if_pos ends, if_pos ends]
        rfl
      · rw [if_neg ends, if_neg ends]
        cases terminator? rest <;> exact congrArg (position + ⟨0, ·⟩) (Nat.add_comm _ 1)
    | some parts =>
      obtain ⟨line, more⟩ := parts
      obtain ⟨rfl, inLine⟩ := splitAround?_eq_some_iff.mp split
      rw [← List.cons_append, statementEndFrom_line _ _ (inWhole inLine),
        statementEndFrom_line _ _ inLine, terminator?_cons, endsLine_line inLine]
      by_cases ends : byte = semicolon ∧ line.all isPadding
      · rw [if_pos ends, if_pos ends]
        rfl
      · rw [if_neg ends, if_neg ends]
        cases terminator? line with
        | none =>
          have next : position + ⟨1, line.length + 1 + 1⟩ =
              position + ⟨0, 1⟩ + ⟨1, line.length + 1⟩ := by
            rw [Position.add_assoc, Nat.add_comm (line.length + 1)]
            rfl
          exact congrArg (statementEndFrom · more) next
        | some index =>
          simp only [Option.map_some]
          rw [Position.add_assoc, Nat.add_comm index]
          rfl

/-! ### Positions add up -/

theorem advance_start (byte : UInt8) : Position.start.advance byte = Position.ofBytes [byte] := by
  rw [Position.advance_eq, Position.start_add]

theorem advance_eq_add (position : Position) (byte : UInt8) :
    position.advance byte = position + Position.start.advance byte := by
  rw [Position.advance_eq, advance_start]

/-- A start elsewhere moves the result by as much. -/
theorem statementEndFrom_eq (position : Position) (bytes : Bytes) :
    statementEndFrom position bytes = position + statementEnd bytes := by
  induction bytes generalizing position with
  | nil => rw [statementEnd, statementEndFrom_nil, statementEndFrom_nil, Position.add_start]
  | cons byte rest ih =>
    rw [statementEnd, statementEndFrom_cons, statementEndFrom_cons]
    split
    · simp
    · rw [ih, ih (Position.advance .start byte), advance_eq_add position, Position.add_assoc]

@[simp] theorem statementEnd_nil : statementEnd [] = .start := statementEndFrom_nil .start

/-- Where no terminator begins, the end lies behind the first byte. -/
theorem statementEnd_cons (byte : UInt8) (rest : Bytes) :
    statementEnd (byte :: rest) =
      if byte = semicolon ∧ endsLine rest then .start
      else Position.start.advance byte + statementEnd rest := by
  rw [statementEnd, statementEndFrom_cons, statementEndFrom_eq]

theorem statementEnd_index_le (bytes : Bytes) : (statementEnd bytes).index ≤ bytes.length := by
  induction bytes with
  | nil => rw [statementEnd_nil]; exact Nat.le_refl 0
  | cons byte rest ih =>
    rw [statementEnd_cons]
    split
    · exact Nat.zero_le _
    · simp only [Position.add_index, Position.advance, Position.start_index, List.length_cons]
      omega

theorem index_advance_add (byte : UInt8) (position : Position) :
    (Position.start.advance byte + position).index = position.index + 1 :=
  Nat.add_comm 1 position.index

/-- The end counts the newlines and the bytes of the statement. -/
theorem statementEnd_eq_ofBytes (bytes : Bytes) :
    statementEnd bytes = Position.ofBytes (bytes.take (statementEnd bytes).index) := by
  induction bytes with
  | nil => rw [statementEnd_nil]; rfl
  | cons byte rest ih =>
    rw [statementEnd_cons]
    split
    · rfl
    · rw [index_advance_add, List.take_succ_cons, ← List.singleton_append,
        Position.ofBytes_append, ← ih, advance_start]

/-- Where no terminator begins in a stretch, the end is that of what follows. -/
theorem statementEnd_append_of_le {before rest : Bytes}
    (within : before.length ≤ (statementEnd (before ++ rest)).index) :
    statementEnd (before ++ rest) = Position.ofBytes before + statementEnd rest := by
  induction before with
  | nil => rw [List.nil_append, Position.ofBytes_nil, Position.start_add]
  | cons byte before ih =>
    rw [List.cons_append, statementEnd_cons] at within ⊢
    by_cases ends : byte = semicolon ∧ endsLine (before ++ rest)
    · rw [if_pos ends] at within
      exact absurd within (Nat.not_succ_le_zero _)
    · rw [if_neg ends] at within ⊢
      rw [index_advance_add, List.length_cons] at within
      rw [ih (Nat.le_of_succ_le_succ within), ← List.singleton_append, Position.ofBytes_append,
        advance_start, Position.add_assoc]

end SqlFixture.Scan
