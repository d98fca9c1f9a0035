import SqlFixture.Scan.Blank

/-
**The comments in front of a statement.**

A line comment runs from `--` to the end of its line, a block comment from `/*` to the first `*/`
behind these two bytes. Comments and the newlines around them are skipped; spaces are not. A dash
or slash that opens no comment is the first byte of the statement.

The scan takes one byte after the other and sees no byte ahead. So it keeps the index of a dash or
slash until the next byte says whether a comment begins there, and it remembers a star inside a
block comment.

* `Scan.CommentState.read`: one byte of the scan;
* `Scan.skipComment`: the position behind the comments;
* `Scan.comments`, `Scan.afterComments`: the bytes before and behind it;
* `Scan.afterCommentsFrom`: the same scan with two bytes in view, which skips the same by
  `Scan.skipsTo_afterCommentsFrom`;
* `Scan.skipComment_eq`: the position counts the newlines and the bytes that are skipped.
-/

namespace SqlFixture.Scan

/-- The byte that opens a line comment when it stands twice. -/
def dash : UInt8 := 0x2D

/-- The first byte of `/*` and the last one of `*/`. -/
def slash : UInt8 := 0x2F

/-- The second byte of `/*` and the first one of `*/`. -/
def star : UInt8 := 0x2A

/-! ### Byte by byte -/

/-- Where a scan over comments stands between two bytes. -/
inductive CommentState where
  /-- Outside of all comments. -/
  | code
  /-- Behind a dash at this index; a second one opens a line comment. -/
  | afterDash (index : Nat)
  /-- Behind a slash at this index; a star opens a block comment. -/
  | afterSlash (index : Nat)
  /-- In a line comment. -/
  | line
  /-- In a block comment. -/
  | block
  /-- In a block comment, right behind a star. -/
  | afterStar
deriving Repr, DecidableEq

namespace CommentState

/-- Reads a byte in a block comment on the given line: the next state and its line. -/
def readInBlock (here : Nat) (byte : UInt8) : CommentState × Nat :=
  if byte = star then (afterStar, here)
  else if byte = newline then (block, here + 1)
  else (block, here)

/-- Reads the byte at a position: the next state and its line; `none` if the comments end here. -/
def read (state : CommentState) (position : Position) (byte : UInt8) :
    Option (CommentState × Nat) :=
  match state with
  | code =>
    if byte = dash then some (afterDash position.index, position.line)
    else if byte = slash then some (afterSlash position.index, position.line)
    else if byte = newline then some (code, position.line + 1)
    else none
  | afterDash _ => if byte = dash then some (line, position.line) else none
  | afterSlash _ => if byte = star then some (block, position.line) else none
  | line => if byte = newline then some (code, position.line + 1) else some (line, position.line)
  | block => some (readInBlock position.line byte)
  | afterStar =>
    if byte = slash then some (code, position.line) else some (readInBlock position.line byte)

/-- The end of the comments for a scan that ends at a position. A dash or slash right before it
opened no comment. -/
def stop (position : Position) : CommentState → Position
  | afterDash index => ⟨position.line, index⟩
  | afterSlash index => ⟨position.line, index⟩
  | _ => position

end CommentState

/-- The end of the comments, for a scan in the given state at the given position. -/
def skipCommentFrom (state : CommentState) (position : Position) : Bytes → Position
  | [] => state.stop position
  | byte :: rest =>
    match state.read position byte with
    | none => state.stop position
    | some (next, line) => skipCommentFrom next ⟨line, position.index + 1⟩ rest

/-- The position behind the leading comments. -/
def skipComment (bytes : Bytes) : Position := skipCommentFrom .code .start bytes

/-- The leading comments, with the newlines between and behind them. -/
def comments (bytes : Bytes) : Bytes := bytes.take (skipComment bytes).index

/-- The bytes behind the leading comments. -/
def afterComments (bytes : Bytes) : Bytes := bytes.drop (skipComment bytes).index

/-- Whether neither a newline nor a comment begins here. -/
def IsCode (bytes : Bytes) : Prop :=
  bytes.head? ≠ some newline ∧ ¬[dash, dash] <+: bytes ∧ ¬[slash, star] <+: bytes

/-! ### Two bytes at a time -/

/-- Where a scan over comments stands that sees the next two bytes. -/
inductive CommentMode where
  | code
  | line
  | block
deriving Repr, DecidableEq

/-- The state of a scan that sees only the next byte. -/
def CommentMode.state : CommentMode → CommentState
  | code => .code
  | line => .line
  | block => .block

/-- The bytes behind the comments, for a scan that stands in the given mode. A comment that the
input does not close reaches to its end. -/
def afterCommentsFrom : CommentMode → Bytes → Bytes
  | _, [] => []
  | .code, [byte] => if byte = newline then [] else [byte]
  | .code, first :: second :: rest =>
    if first = newline then afterCommentsFrom .code (second :: rest)
    else if first = dash ∧ second = dash then afterCommentsFrom .line rest
    else if first = slash ∧ second = star then afterCommentsFrom .block rest
    else first :: second :: rest
  | .line, byte :: rest =>
    if byte = newline then afterCommentsFrom .code rest else afterCommentsFrom .line rest
  | .block, [_] => []
  | .block, first :: second :: rest =>
    if first = star ∧ second = slash then afterCommentsFrom .code rest
    else afterCommentsFrom .block (second :: rest)

/-! ### What is skipped -/

section Reading

variable {state next : CommentState} {position : Position} {byte : UInt8} {line : Nat}
  {bytes rest left : Bytes}

/-- Each newline that is read is counted, and no other byte is. -/
theorem position_of_read (read : state.read position byte = some (next, line)) :
    (⟨line, position.index + 1⟩ : Position) = position + Position.ofBytes [byte] := by
  have signs : dash ≠ newline ∧ slash ≠ newline ∧ star ≠ newline := by decide
  rw [← Position.advance_eq]
  unfold Position.advance
  cases state with
  | code => grind [CommentState.read]
  | afterDash index => grind [CommentState.read]
  | afterSlash index => grind [CommentState.read]
  | line => grind [CommentState.read]
  | block => grind [CommentState.read, CommentState.readInBlock]
  | afterStar => grind [CommentState.read, CommentState.readInBlock]

theorem skipCommentFrom_of_read (read : state.read position byte = some (next, line)) :
    skipCommentFrom state position (byte :: rest) =
      skipCommentFrom next (position + Position.ofBytes [byte]) rest := by
  rw [skipCommentFrom, read, ← position_of_read read]

theorem skipCommentFrom_of_reads {middle : CommentState} {second : UInt8} {last : Nat}
    (read : state.read position byte = some (middle, line))
    (readNext : middle.read (position + Position.ofBytes [byte]) second = some (next, last)) :
    skipCommentFrom state position (byte :: second :: rest) =
      skipCommentFrom next (position + Position.ofBytes [byte, second]) rest := by
  have both : Position.ofBytes [byte, second] = Position.ofBytes [byte] + Position.ofBytes [second] :=
    Position.ofBytes_append [byte] [second]
  rw [skipCommentFrom_of_read read, skipCommentFrom_of_read readNext, Position.add_assoc, ← both]

theorem skipCommentFrom_of_stop (read : state.read position byte = none) :
    skipCommentFrom state position (byte :: rest) = state.stop position := by
  rw [skipCommentFrom, read]

/-- A star is forgotten where no slash follows. -/
theorem skipCommentFrom_afterStar (goesOn : rest.head? ≠ some slash) :
    skipCommentFrom .afterStar position rest = skipCommentFrom .block position rest := by
  cases rest with
  | nil => rfl
  | cons byte rest =>
    have other : byte ≠ slash := fun same => goesOn (congrArg some same)
    have alike : CommentState.afterStar.read position byte = CommentState.block.read position byte :=
      if_neg other
    rw [skipCommentFrom, skipCommentFrom, alike]
    rfl

/-- A block comment goes on behind a byte that does not begin its end. -/
theorem skipCommentFrom_block (goesOn : ¬(byte = star ∧ rest.head? = some slash)) :
    skipCommentFrom .block position (byte :: rest) =
      skipCommentFrom .block (position + Position.ofBytes [byte]) rest := by
  by_cases isStar : byte = star
  · have read : CommentState.block.read position byte = some (.afterStar, position.line) := by
      simp [CommentState.read, CommentState.readInBlock, isStar]
    rw [skipCommentFrom_of_read read]
    exact skipCommentFrom_afterStar fun ends => goesOn ⟨isStar, ends⟩
  · by_cases ends : byte = newline
    · subst ends
      exact skipCommentFrom_of_read rfl
    · have read : CommentState.block.read position byte = some (.block, position.line) := by
        simp [CommentState.read, CommentState.readInBlock, isStar, ends]
      exact skipCommentFrom_of_read read

/-- A sign that waits for a second one, which does not follow. -/
theorem skipCommentFrom_of_single {middle : CommentState}
    (read : state.read position byte = some (middle, line))
    (single : ∀ second ∈ rest.head?,
      middle.read (position + Position.ofBytes [byte]) second = none) :
    skipCommentFrom state position (byte :: rest) =
      middle.stop (position + Position.ofBytes [byte]) := by
  rw [skipCommentFrom_of_read read]
  cases rest with
  | nil => rfl
  | cons second rest => exact skipCommentFrom_of_stop (single second rfl)

/-- **A single dash or slash is code, at its own place.** -/
theorem skipCommentFrom_of_isCode (code : IsCode bytes) :
    skipCommentFrom .code position bytes = position := by
  obtain ⟨noNewline, noLine, noBlock⟩ := code
  cases bytes with
  | nil => rfl
  | cons byte rest =>
    by_cases isDash : byte = dash
    · subst isDash
      have read : CommentState.code.read position dash =
          some (.afterDash position.index, position.line) := rfl
      refine skipCommentFrom_of_single read fun second follows => ?_
      refine if_neg ?_
      rintro rfl
      obtain ⟨more, rfl⟩ := List.head?_eq_some_iff.mp follows
      exact noLine (List.prefix_append [dash, dash] more)
    · by_cases isSlash : byte = slash
      · subst isSlash
        have read : CommentState.code.read position slash =
            some (.afterSlash position.index, position.line) := rfl
        refine skipCommentFrom_of_single read fun second follows => ?_
        refine if_neg ?_
        rintro rfl
        obtain ⟨more, rfl⟩ := List.head?_eq_some_iff.mp follows
        exact noBlock (List.prefix_append [slash, star] more)
      · have other : byte ≠ newline := fun same => noNewline (congrArg some same)
        refine skipCommentFrom_of_stop ?_
        simp [CommentState.read, isDash, isSlash, other]

/-- Whether a scan in a state skips all of the bytes up to the last `left`. -/
def SkipsTo (state : CommentState) (bytes left : Bytes) : Prop :=
  ∃ skipped, bytes = skipped ++ left ∧
    ∀ position, skipCommentFrom state position bytes = position + Position.ofBytes skipped

theorem skipsTo_self (stops : ∀ position, skipCommentFrom state position bytes = position) :
    SkipsTo state bytes bytes :=
  ⟨[], rfl, fun position => (stops position).trans (Position.add_start position).symm⟩

theorem SkipsTo.append (skips : SkipsTo next rest left) (front : Bytes)
    (reads : ∀ position, skipCommentFrom state position (front ++ rest) =
      skipCommentFrom next (position + Position.ofBytes front) rest) :
    SkipsTo state (front ++ rest) left := by
  obtain ⟨skipped, rfl, mark⟩ := skips
  refine ⟨front ++ skipped, (List.append_assoc ..).symm, fun position => ?_⟩
  rw [reads, mark, Position.ofBytes_append, Position.add_assoc]

end Reading

/-- **Bytes are skipped alike, with one byte in view or with two.** -/
theorem skipsTo_afterCommentsFrom (mode : CommentMode) (bytes : Bytes) :
    SkipsTo mode.state bytes (afterCommentsFrom mode bytes) := by
  fun_induction afterCommentsFrom mode bytes with
  | case1 mode => exact skipsTo_self fun position => by cases mode <;> rfl
  | case2 =>
    have nothing : SkipsTo .code [] [] := skipsTo_self fun _ => rfl
    exact nothing.append [newline] fun _ => skipCommentFrom_of_read rfl
  | case3 byte other =>
    refine skipsTo_self fun _ => skipCommentFrom_of_isCode ?_
    simp [IsCode, other]
  | case4 second rest ih =>
    exact ih.append [newline] fun _ => skipCommentFrom_of_read rfl
  | case5 first second rest _ opens ih =>
    obtain ⟨rfl, rfl⟩ := opens
    exact ih.append [dash, dash] fun _ => skipCommentFrom_of_reads rfl rfl
  | case6 first second rest _ _ opens ih =>
    obtain ⟨rfl, rfl⟩ := opens
    exact ih.append [slash, star] fun _ => skipCommentFrom_of_reads rfl rfl
  | case7 first second rest other noLine noBlock =>
    refine skipsTo_self fun _ => skipCommentFrom_of_isCode ⟨?_, ?_, ?_⟩
    · simpa using other
    · simpa [eq_comm] using noLine
    · simpa [eq_comm] using noBlock
  | case8 rest ih => exact ih.append [newline] fun _ => skipCommentFrom_of_read rfl
  | case9 byte rest inLine ih =>
    exact ih.append [byte] fun _ => skipCommentFrom_of_read (if_neg inLine)
  | case10 byte =>
    have nothing : SkipsTo .block [] [] := skipsTo_self fun _ => rfl
    exact nothing.append [byte] fun _ => skipCommentFrom_block (by simp)
  | case11 first second rest ends ih =>
    obtain ⟨rfl, rfl⟩ := ends
    exact ih.append [star, slash] fun _ => skipCommentFrom_of_reads rfl rfl
  | case12 first second rest goesOn ih =>
    exact ih.append [first] fun _ => skipCommentFrom_block (by simpa using goesOn)

theorem afterCommentsFrom_suffix (mode : CommentMode) (bytes : Bytes) :
    afterCommentsFrom mode bytes <:+ bytes := by
  obtain ⟨skipped, whole, _⟩ := skipsTo_afterCommentsFrom mode bytes
  exact ⟨skipped, whole.symm⟩

theorem exists_skipped (bytes : Bytes) :
    ∃ skipped, bytes = skipped ++ afterCommentsFrom .code bytes ∧
      skipComment bytes = Position.ofBytes skipped := by
  obtain ⟨skipped, whole, mark⟩ := skipsTo_afterCommentsFrom .code bytes
  exact ⟨skipped, whole, (mark .start).trans (Position.start_add _)⟩

/-- **The position behind the comments counts the newlines and the bytes that are skipped.** -/
theorem skipComment_eq (bytes : Bytes) : skipComment bytes = Position.ofBytes (comments bytes) := by
  obtain ⟨skipped, whole, mark⟩ := exists_skipped bytes
  have front : comments bytes = skipped := by
    unfold comments
    rw [mark]
    exact (List.prefix_iff_eq_take.mp ⟨_, whole.symm⟩).symm
  rw [mark, front]

theorem afterComments_eq (bytes : Bytes) :
    afterComments bytes = afterCommentsFrom .code bytes := by
  obtain ⟨skipped, whole, mark⟩ := exists_skipped bytes
  unfold afterComments
  rw [mark]
  conv => lhs; rw [whole]
  exact List.drop_left

theorem skipComment_index_le (bytes : Bytes) : (skipComment bytes).index ≤ bytes.length := by
  rw [skipComment_eq]
  exact List.length_take_le' ..

@[simp] theorem comments_append_afterComments (bytes : Bytes) :
    comments bytes ++ afterComments bytes = bytes := List.take_append_drop ..

theorem afterComments_suffix (bytes : Bytes) : afterComments bytes <:+ bytes :=
  List.drop_suffix ..

end SqlFixture.Scan
