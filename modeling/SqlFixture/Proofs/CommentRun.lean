import SqlFixture.Scan.Comment
import SqlFixture.Scan.Cut

/-
**The comments in front, as a grammar.**

What is skipped in front of a statement is a run of newlines and complete comments, and as the last
part of an input it may be a comment that is not closed. Behind the run neither a newline nor a
comment begins. Each part of the run is settled by what it begins with, so that no other place is
the end of such a run.

* `Scan.IsCommentPiece`, `Scan.IsOpenComment`: the parts of a run;
* `Scan.exists_first`, `Scan.exists_run`: every input begins with a run, part by part;
* `Scan.afterComments_piece`, `Scan.afterComments_open`: the scan passes over each part;
* `Scan.skipComment_of_run`: so it passes over a whole run;
* `Scan.IsAllComment`, `Scan.exists_pieces`: texts that are a run to their end, and all others;
* `Scan.EndsRun`: the places that the grammar allows as the end of the run;
* `Scan.skipComment_exact`: the scan finds the only one of them.
-/

namespace SqlFixture.Scan

/-! ### The parts of a run -/

/-- A block comment. -/
def blockComment (body : Bytes) : Bytes := slash :: star :: (body ++ [star, slash])

/-- A newline or a complete comment. A line comment ends with the first newline, a block comment
with the first `*/` behind the two bytes that open it. -/
inductive IsCommentPiece : Bytes → Prop
  | newline : IsCommentPiece [newline]
  | lineComment {body : Bytes} (inLine : SqlFixture.newline ∉ body) :
    IsCommentPiece (dash :: dash :: (body ++ [SqlFixture.newline]))
  | blockComment {body : Bytes} (unclosed : ¬[star, slash] <:+: body) :
    IsCommentPiece (Scan.blockComment body)

/-- A comment that the input does not close. -/
inductive IsOpenComment : Bytes → Prop
  | line {body : Bytes} (inLine : newline ∉ body) : IsOpenComment (dash :: dash :: body)
  | block {body : Bytes} (unclosed : ¬[star, slash] <:+: body) :
    IsOpenComment (slash :: star :: body)

variable {bytes body rest last piece : Bytes} {pieces : List Bytes}

theorem IsCommentPiece.ne_nil (isPiece : IsCommentPiece piece) : piece ≠ [] := by
  cases isPiece <;> exact List.cons_ne_nil _ _

/-- Bytes go up to the first `*/`, or there is none in them. -/
theorem unclosed_or_exists (bytes : Bytes) :
    ¬[star, slash] <:+: bytes ∨
      ∃ body rest, bytes = body ++ star :: slash :: rest ∧ ¬[star, slash] <:+: body := by
  induction bytes with
  | nil => simp
  | cons byte bytes ih =>
    by_cases closes : [star, slash] <+: byte :: bytes
    · obtain ⟨rest, whole⟩ := closes
      exact .inr ⟨[], rest, whole.symm, by simp⟩
    · rcases ih with unclosed | ⟨body, rest, rfl, unclosed⟩
      · exact .inl fun inside => (List.infix_cons_iff.mp inside).elim closes unclosed
      · refine .inr ⟨byte :: body, rest, rfl, fun inside => ?_⟩
        rcases List.infix_cons_iff.mp inside with here | later
        · exact closes (here.trans (List.prefix_append (byte :: body) _))
        · exact unclosed later

/-- Where the bytes are no code, a part of a run begins. -/
theorem exists_first (bytes : Bytes) :
    IsCode bytes ∨ IsOpenComment bytes ∨
      ∃ piece rest, bytes = piece ++ rest ∧ IsCommentPiece piece := by
  by_cases ends : bytes.head? = some newline
  · obtain ⟨rest, rfl⟩ := List.head?_eq_some_iff.mp ends
    exact .inr (.inr ⟨[newline], rest, rfl, .newline⟩)
  · by_cases line : [dash, dash] <+: bytes
    · obtain ⟨text, rfl⟩ := line
      cases split : splitAround? newline text with
      | none => exact .inr (.inl (.line (splitAround?_eq_none_iff.mp split)))
      | some parts =>
        obtain ⟨body, rest⟩ := parts
        obtain ⟨rfl, inLine⟩ := splitAround?_eq_some_iff.mp split
        refine .inr (.inr ⟨dash :: dash :: (body ++ [newline]), rest, ?_, .lineComment inLine⟩)
        simp
    · by_cases block : [slash, star] <+: bytes
      · obtain ⟨text, rfl⟩ := block
        rcases unclosed_or_exists text with unclosed | ⟨body, rest, rfl, unclosed⟩
        · exact .inr (.inl (.block unclosed))
        · refine .inr (.inr ⟨blockComment body, rest, ?_, .blockComment unclosed⟩)
          simp [blockComment]
      · exact .inl ⟨ends, line, block⟩

/-- Whether these bytes may follow the complete parts of a run, and what they add to it. -/
def EndsWith (last rest : Bytes) : Prop :=
  last = [] ∧ IsCode rest ∨ IsOpenComment last ∧ rest = []

/-- **Every input begins with a run.** -/
theorem exists_run (bytes : Bytes) :
    ∃ (pieces : List Bytes) (last rest : Bytes), bytes = pieces.flatten ++ (last ++ rest) ∧
      (∀ piece ∈ pieces, IsCommentPiece piece) ∧ EndsWith last rest := by
  induction size : bytes.length using Nat.strongRecOn generalizing bytes with
  | ind size ih =>
    subst size
    rcases exists_first bytes with code | unclosed | ⟨piece, later, rfl, isPiece⟩
    · exact ⟨[], [], bytes, rfl, nofun, .inl ⟨rfl, code⟩⟩
    · exact ⟨[], bytes, [], (List.append_nil bytes).symm, nofun, .inr ⟨unclosed, rfl⟩⟩
    · have shorter : later.length < (piece ++ later).length := by
        have some_byte := List.length_pos_iff.mpr isPiece.ne_nil
        rw [List.length_append]
        omega
      obtain ⟨pieces, last, rest, rfl, allPieces, ends⟩ := ih _ shorter later rfl
      refine ⟨piece :: pieces, last, rest, ?_, List.forall_mem_cons.mpr ⟨isPiece, allPieces⟩, ends⟩
      rw [List.flatten_cons, List.append_assoc]

/-! ### How the scan passes over them -/

theorem afterComments_newline (rest : Bytes) :
    afterComments (newline :: rest) = afterComments rest := by
  rw [afterComments_eq, afterComments_eq]
  cases rest <;> rfl

theorem afterComments_dashes (bytes : Bytes) :
    afterComments (dash :: dash :: bytes) = afterCommentsFrom .line bytes := by
  rw [afterComments_eq, afterCommentsFrom, if_neg (by decide), if_pos ⟨rfl, rfl⟩]

theorem afterComments_slashStar (bytes : Bytes) :
    afterComments (slash :: star :: bytes) = afterCommentsFrom .block bytes := by
  rw [afterComments_eq, afterCommentsFrom, if_neg (by decide), if_neg (by decide),
    if_pos ⟨rfl, rfl⟩]

/-- What a line comment does not close is skipped to its end. -/
theorem afterCommentsFrom_line_of_not_mem (inLine : newline ∉ body) :
    afterCommentsFrom .line body = [] := by
  induction body with
  | nil => rfl
  | cons byte body ih =>
    rw [List.mem_cons, not_or] at inLine
    rw [afterCommentsFrom, if_neg (Ne.symm inLine.1), ih inLine.2]

theorem afterCommentsFrom_line (inLine : newline ∉ body) (rest : Bytes) :
    afterCommentsFrom .line (body ++ newline :: rest) = afterComments rest := by
  induction body with
  | nil => rw [List.nil_append, afterCommentsFrom, if_pos rfl, afterComments_eq]
  | cons byte body ih =>
    rw [List.mem_cons, not_or] at inLine
    rw [List.cons_append, afterCommentsFrom, if_neg (Ne.symm inLine.1), ih inLine.2]

/-- A block comment goes on with each byte that does not begin its end. -/
theorem afterCommentsFrom_block_cons {byte : UInt8} (goesOn : ¬[star, slash] <+: byte :: bytes) :
    afterCommentsFrom .block (byte :: bytes) = afterCommentsFrom .block bytes := by
  cases bytes with
  | nil => rfl
  | cons second bytes =>
    have other : ¬(byte = star ∧ second = slash) := by
      rintro ⟨rfl, rfl⟩
      exact goesOn (List.prefix_append [star, slash] bytes)
    rw [afterCommentsFrom, if_neg other]

/-- What a block comment does not close is skipped to its end. -/
theorem afterCommentsFrom_block_of_unclosed (unclosed : ¬[star, slash] <:+: body) :
    afterCommentsFrom .block body = [] := by
  induction body with
  | nil => rfl
  | cons byte body ih =>
    rw [List.infix_cons_iff, not_or] at unclosed
    rw [afterCommentsFrom_block_cons unclosed.1, ih unclosed.2]

theorem afterCommentsFrom_block (unclosed : ¬[star, slash] <:+: body) (rest : Bytes) :
    afterCommentsFrom .block (body ++ star :: slash :: rest) = afterComments rest := by
  induction body with
  | nil => rw [List.nil_append, afterCommentsFrom, if_pos ⟨rfl, rfl⟩, afterComments_eq]
  | cons byte body ih =>
    rw [List.infix_cons_iff, not_or] at unclosed
    have goesOn : ¬[star, slash] <+: byte :: (body ++ star :: slash :: rest) := by
      intro closes
      obtain ⟨first, second⟩ := List.cons_prefix_cons.mp closes
      cases body with
      | nil => exact absurd (List.cons_prefix_cons.mp second).1 (by decide)
      | cons other body =>
        refine unclosed.1 (List.cons_prefix_cons.mpr ⟨first, List.cons_prefix_cons.mpr ⟨?_, ?_⟩⟩)
        · exact (List.cons_prefix_cons.mp second).1
        · exact List.nil_prefix
    rw [List.cons_append, afterCommentsFrom_block_cons goesOn, ih unclosed.2]

/-- A comment is skipped as a whole. -/
theorem afterComments_blockComment (unclosed : ¬[star, slash] <:+: body) (rest : Bytes) :
    afterComments (blockComment body ++ rest) = afterComments rest := by
  have regrouped : blockComment body ++ rest =
      slash :: star :: (body ++ star :: slash :: rest) := by
    simp [blockComment]
  rw [regrouped, afterComments_slashStar, afterCommentsFrom_block unclosed]

theorem afterComments_piece (isPiece : IsCommentPiece piece) (rest : Bytes) :
    afterComments (piece ++ rest) = afterComments rest := by
  cases isPiece with
  | newline => exact afterComments_newline rest
  | lineComment inLine =>
    rw [List.cons_append, List.cons_append, afterComments_dashes, List.append_assoc]
    exact afterCommentsFrom_line inLine rest
  | blockComment unclosed => exact afterComments_blockComment unclosed rest

theorem afterComments_pieces (allPieces : ∀ piece ∈ pieces, IsCommentPiece piece) (rest : Bytes) :
    afterComments (pieces.flatten ++ rest) = afterComments rest := by
  induction pieces with
  | nil => rfl
  | cons piece pieces ih =>
    obtain ⟨isPiece, others⟩ := List.forall_mem_cons.mp allPieces
    rw [List.flatten_cons, List.append_assoc, afterComments_piece isPiece, ih others]

theorem afterComments_open (unclosed : IsOpenComment last) : afterComments last = [] := by
  cases unclosed with
  | line inLine => rw [afterComments_dashes, afterCommentsFrom_line_of_not_mem inLine]
  | block unclosed => rw [afterComments_slashStar, afterCommentsFrom_block_of_unclosed unclosed]

theorem skipComment_append {front : Bytes}
    (skipped : afterComments (front ++ rest) = afterComments rest) :
    skipComment (front ++ rest) = Position.ofBytes front + skipComment rest := by
  have whole : comments (front ++ rest) ++ afterComments rest =
      (front ++ comments rest) ++ afterComments rest := by
    rw [List.append_assoc, comments_append_afterComments, ← skipped, comments_append_afterComments]
  rw [skipComment_eq, List.append_cancel_right whole, Position.ofBytes_append, ← skipComment_eq]

theorem skipComment_of_isCode (code : IsCode bytes) : skipComment bytes = .start :=
  skipCommentFrom_of_isCode code

theorem skipComment_open (unclosed : IsOpenComment last) :
    skipComment last = Position.ofBytes last := by
  have whole := comments_append_afterComments last
  rw [afterComments_open unclosed, List.append_nil] at whole
  rw [skipComment_eq, whole]

/-- **The scan passes over a run.** -/
theorem skipComment_of_run (allPieces : ∀ piece ∈ pieces, IsCommentPiece piece)
    (ends : EndsWith last rest) :
    skipComment (pieces.flatten ++ (last ++ rest)) = Position.ofBytes (pieces.flatten ++ last) := by
  rw [skipComment_append (afterComments_pieces allPieces _), Position.ofBytes_append]
  rcases ends with ⟨rfl, code⟩ | ⟨unclosed, rfl⟩
  · rw [List.nil_append, skipComment_of_isCode code]
    rfl
  · rw [List.append_nil, skipComment_open unclosed]

/-! ### What is behind the run -/

theorem afterComments_of_isCode (code : IsCode bytes) : afterComments bytes = bytes := by
  rw [afterComments, skipComment_of_isCode code]
  exact List.drop_zero

/-- **A text that is not all skipped divides into a run and code.** -/
theorem exists_pieces (something : afterComments bytes ≠ []) :
    ∃ pieces : List Bytes, bytes = pieces.flatten ++ afterComments bytes ∧
      (∀ piece ∈ pieces, IsCommentPiece piece) ∧ IsCode (afterComments bytes) := by
  obtain ⟨pieces, last, rest, rfl, allPieces, ends⟩ := exists_run bytes
  rw [afterComments_pieces allPieces] at something ⊢
  rcases ends with ⟨rfl, code⟩ | ⟨unclosed, rfl⟩
  · rw [List.nil_append, afterComments_of_isCode code]
    exact ⟨pieces, rfl, allPieces, code⟩
  · rw [List.append_nil, afterComments_open unclosed] at something
    exact absurd rfl something

/-- Whether a text is all comment: newlines and complete comments, and at its end maybe a comment
that is not closed. -/
def IsAllComment (text : Bytes) : Prop :=
  ∃ (pieces : List Bytes) (last : Bytes), text = pieces.flatten ++ last ∧
    (∀ piece ∈ pieces, IsCommentPiece piece) ∧ (last = [] ∨ IsOpenComment last)

theorem isAllComment_iff : IsAllComment bytes ↔ afterComments bytes = [] := by
  constructor
  · rintro ⟨pieces, last, rfl, allPieces, nothing | unclosed⟩
    · rw [afterComments_pieces allPieces, nothing]
      rfl
    · rw [afterComments_pieces allPieces, afterComments_open unclosed]
  · intro nothing
    obtain ⟨pieces, last, rest, rfl, allPieces, ends⟩ := exists_run bytes
    rw [afterComments_pieces allPieces] at nothing
    rcases ends with ⟨rfl, code⟩ | ⟨unclosed, rfl⟩
    · rw [List.nil_append, afterComments_of_isCode code] at nothing
      exact ⟨pieces, [], by rw [nothing, List.nil_append], allPieces, .inl rfl⟩
    · exact ⟨pieces, last, by rw [List.append_nil], allPieces, .inr unclosed⟩

instance decidableIsAllComment : DecidablePred IsAllComment :=
  fun _ => decidable_of_iff _ isAllComment_iff.symm

/-! ### The end of the run -/

/-- Whether the run in front of some bytes ends at an index. Before it stand newlines and complete
comments, and a comment that is not closed only if it is the last of the bytes. Behind it begins
neither a newline nor a comment. -/
structure EndsRun (bytes : Bytes) (index : Nat) : Prop where
  within : index ≤ bytes.length
  run : ∃ (pieces : List Bytes) (last : Bytes), bytes.take index = pieces.flatten ++ last ∧
    (∀ piece ∈ pieces, IsCommentPiece piece) ∧
    (last = [] ∨ IsOpenComment last ∧ index = bytes.length)
  code : index < bytes.length → bytes[index]? ≠ some newline ∧
    ¬[dash, dash] <+: bytes.drop index ∧ ¬[slash, star] <+: bytes.drop index

theorem EndsRun.isCode {index : Nat} (ends : EndsRun bytes index) : IsCode (bytes.drop index) := by
  rcases Nat.lt_or_ge index bytes.length with inside | beyond
  · unfold IsCode
    rw [List.head?_drop]
    exact ends.code inside
  · rw [List.drop_eq_nil_of_le beyond]
    simp [IsCode]

theorem endsRun_skipComment (bytes : Bytes) : EndsRun bytes (skipComment bytes).index := by
  obtain ⟨pieces, last, rest, rfl, allPieces, ends⟩ := exists_run bytes
  rw [skipComment_of_run allPieces ends, ← List.append_assoc]
  show EndsRun ((pieces.flatten ++ last) ++ rest) (pieces.flatten ++ last).length
  refine ⟨?_, ⟨pieces, last, List.take_left, allPieces, ?_⟩, fun inside => ?_⟩
  · exact (List.prefix_append _ _).length_le
  · rcases ends with ⟨nothing, _⟩ | ⟨unclosed, rfl⟩
    · exact .inl nothing
    · exact .inr ⟨unclosed, by rw [List.append_nil]⟩
  · rw [← List.head?_drop, List.drop_left]
    rcases ends with ⟨_, code⟩ | ⟨_, rfl⟩
    · exact code
    · rw [List.append_nil] at inside
      exact absurd inside (Nat.lt_irrefl _)

theorem EndsRun.eq {index : Nat} (ends : EndsRun bytes index) :
    index = (skipComment bytes).index := by
  obtain ⟨pieces, last, run, allPieces, finish⟩ := ends.run
  have behind : EndsWith last (bytes.drop index) := by
    rcases finish with rfl | ⟨unclosed, atEnd⟩
    · exact .inl ⟨rfl, ends.isCode⟩
    · exact .inr ⟨unclosed, by rw [atEnd, List.drop_length]⟩
  have mark := skipComment_of_run allPieces behind
  rw [← List.append_assoc, ← run, List.take_append_drop] at mark
  rw [mark]
  exact (List.length_take_of_le ends.within).symm

/-- **The leading comments are skipped, and nothing else.** The scan ends at the only place where
the run of newlines and comments in front of the bytes may end, and it counts the newlines before
that place. So a run of complete comments in front moves the result by its newlines and bytes. -/
theorem skipComment_exact (bytes : Bytes) :
    (∀ index, EndsRun bytes index ↔ index = (skipComment bytes).index) ∧
    (skipComment bytes).line = (bytes.take (skipComment bytes).index).count newline ∧
    ∀ pieces : List Bytes, (∀ piece ∈ pieces, IsCommentPiece piece) →
      skipComment (pieces.flatten ++ bytes) =
        ⟨pieces.flatten.count newline, pieces.flatten.length⟩ + skipComment bytes := by
  refine ⟨fun index => ⟨EndsRun.eq, ?_⟩, ?_, fun pieces allPieces => ?_⟩
  · rintro rfl
    exact endsRun_skipComment bytes
  · exact congrArg Position.line (skipComment_eq bytes)
  · exact skipComment_append (afterComments_pieces allPieces bytes)

/-- The second slash closes nothing, and a single dash is code. -/
example : skipComment [slash, star, slash, star, slash, dash] = ⟨0, 5⟩ := by decide

/-- A newline behind a star is counted, and a line comment may be the last part. -/
example : skipComment [slash, star, star, newline, star, star, slash, dash, dash] = ⟨1, 9⟩ := by
  decide

end SqlFixture.Scan
