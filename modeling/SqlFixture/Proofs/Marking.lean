import SqlFixture.Proofs.Accounting
import SqlFixture.Proofs.Validity

/-
**The mark on a refused statement.**

A refusal shows the whole fixture as text and marks a span of bytes in it. Bytes that are no text
take up other room in what is shown than in the fixture. But all that stands before a refused chunk
was decoded, and so was the chunk itself if the interpreters refuse it: up to its end the shown text
has the bytes of the fixture, whatever follows.

* `Utf8.lossy_append`: what is shown of a text does not depend on what is behind it;
* `Utf8.Cuts`: a span of bytes that begins and ends between characters;
* `Chunk.refusal?_eq_some_iff`: a chunk is refused by its decoding or by the interpreters;
* `Test.refusal_marks`: a refusal by the interpreters marks the refused statement.
-/

namespace SqlFixture

open Directive Utf8

/-! ### What is shown -/

namespace Utf8

theorem pieces_encode_append (text : String) (rest : Bytes) :
    pieces (encode text ++ rest) = text.toList.map Piece.character ++ pieces rest := by
  rw [encode]
  induction text.toList with
  | nil => rfl
  | cons value later ih =>
    obtain ⟨first, tail, spelled, read⟩ :=
      piece_encodeCode value ((later.flatMap fun character => encodeCode character.toNat) ++ rest)
    rw [List.flatMap_cons, List.append_assoc, spelled, List.cons_append, pieces_cons, read, ih]
    rfl

/-- **A text in front is shown as it is**, whatever is behind it. -/
theorem lossy_append (text : String) (rest : Bytes) :
    lossy (encode text ++ rest) = text ++ lossy rest := by
  have shown : (text.toList.map Piece.character).map Piece.shown = text.toList := by
    rw [List.map_map]
    exact List.map_id _
  rw [lossy, pieces_encode_append, List.map_append, shown, String.ofList_append,
    String.ofList_toList]
  rfl

/-- Whether a span, given by its offset and its length in bytes, begins and ends between characters
of a text and cuts out `part`. -/
def Cuts (text : String) (span : Nat × Nat) (part : String) : Prop :=
  ∃ before behind, text = before ++ part ++ behind ∧
    (encode before).length = span.1 ∧ (encode part).length = span.2

end Utf8

/-! ### Why a chunk is refused -/

namespace Chunk

variable {interpreters : List Interpreter} {context : Context} {chunk : Chunk}
  {cause : StatementError}

/-- **A chunk is refused by its decoding, or by the interpreters** once it is decoded. -/
theorem refusal?_eq_some_iff :
    chunk.refusal? interpreters context = some cause ↔
      (∃ offset, decode chunk.source = .error offset ∧ cause = .invalidUtf8 offset) ∨
      ∃ text, decode chunk.source = .ok text ∧ chunk.probe ≠ [] ∧
        interpret interpreters context chunk.probe = .error cause := by
  unfold refusal?
  cases decode chunk.source with
  | error offset =>
    constructor
    · intro same
      exact .inl ⟨offset, rfl, (Option.some.inj same).symm⟩
    · rintro (⟨_, same, rfl⟩ | ⟨_, same, _⟩)
      · cases same
        rfl
      · cases same
  | ok text =>
    constructor
    · intro same
      dsimp only at same
      split at same
      · cases same
      next something =>
        cases answer : interpret interpreters context chunk.probe with
        | error why =>
          rw [answer] at same
          cases same
          exact .inr ⟨text, rfl, something, rfl⟩
        | ok outcome =>
          rw [answer] at same
          cases same
    · rintro (⟨_, same, _⟩ | ⟨_, _, something, answer⟩)
      · cases same
      · dsimp only
        rw [if_neg something, answer]

/-- The first refusal is that of a chunk under the context that those before it leave behind. -/
theorem exists_of_firstRefusal? {chunks : List Chunk}
    (refused : firstRefusal? interpreters context chunks = some (chunk, cause)) :
    ∃ under, (under, chunk) ∈ inContext interpreters context chunks ∧
      chunk.refusal? interpreters under = some cause := by
  obtain ⟨⟨under, other⟩, member, found⟩ := List.exists_of_findSome?_eq_some refused
  obtain ⟨why, here, same⟩ := Option.map_eq_some_iff.mp found
  cases same
  exact ⟨under, member, here⟩

end Chunk

/-! ### A whole build -/

namespace Test

variable {config : Config} {name : String} {fixture : Bytes}

/-- **A refusal by the interpreters marks the refused statement.** Whatever the delimiter, the
interpreters and the limit are, a build is refused for a chunk that its own decoding refuses, or
that the interpreters refuse under the context that the chunks before it leave behind. In the second
case the marked span of the shown text begins and ends between characters, and what it cuts out are
the bytes of the chunk in the fixture, even if the bytes behind it are no text. -/
theorem refusal_marks {called shown : String} {left right : Position} {cause : StatementError}
    (refused : build config name fixture = .error (.refused called left right cause shown)) :
    ∃ context chunk,
      (context, chunk) ∈ Chunk.inContext config.interpreters .empty (config.chunks fixture) ∧
      chunk.left = left ∧ chunk.right = right ∧
      ((∃ offset, decode chunk.source = .error offset ∧ cause = .invalidUtf8 offset) ∨
        ∃ statement, decode chunk.source = .ok statement ∧
          interpret config.interpreters context chunk.probe = .error cause ∧
          Cuts shown (Position.span left right) statement ∧
          encode statement = (Segment.mk left.index right.index).bytes fixture) := by
  obtain ⟨chunk, refusal, rfl, rfl⟩ := build_eq_refused refused
  obtain ⟨context, member, here⟩ := Chunk.exists_of_firstRefusal? refusal
  refine ⟨context, chunk, member, rfl, rfl, ?_⟩
  obtain decoding | ⟨statement, decodes, _, answer⟩ := Chunk.refusal?_eq_some_iff.mp here
  · exact .inl decoding
  · refine .inr ⟨statement, decodes, answer, ?_⟩
    obtain ⟨_, last, rest, reached, inked, cut, _⟩ := Loop.exists_cut_of_refusal refusal
    have valid := Loop.valid_of_after reached
    have tail := valid.tail.skipBlank
    obtain ⟨before, front⟩ := valid.before_skipBlank
    obtain ⟨_, right, slice⟩ := tail.cut cut
    have left := (Remainder.cut?_eq_some_iff.mp cut).2.1
    have encoded := decode_eq_ok_iff.mp decodes
    have divided : fixture = encode before ++ (encode statement ++ rest.bytes) := by
      rw [← front, ← encoded, Remainder.source_append_bytes cut, tail.bytes,
        List.take_append_drop]
    have told := refused.symm.trans (build_of_refusal refusal)
    obtain rfl : shown = lossy fixture := by
      cases told
      rfl
    refine ⟨⟨before, lossy rest.bytes, ?_, ?_, ?_⟩, ?_⟩
    · conv => lhs; rw [divided]
      rw [lossy_append, lossy_append, String.append_assoc]
    · have length := congrArg List.length front
      rw [List.length_take, Nat.min_eq_left tail.within] at length
      rw [← length, left]
      rfl
    · rw [Position.span_of_le (by omega), ← encoded]
      omega
    · rw [Segment.bytes, ← encoded, right, Nat.add_sub_cancel_left]
      exact slice

/-- A key that is not defined, behind a comment and in front of bytes that are no text. -/
theorem refusal_marks_of_undefined_key :
    let front := "SELECT 'é';\n"
    let statement := "-- é\nassert é 1"
    let fixture := encode front ++ encode statement ++ [0x3B, 0x0A, 0xFF, 0x20, 0xFF]
    ∃ left right,
      build {} "t" fixture = .error (.refused "t" left right (.assertUndefined "é")
        (front ++ statement ++ ";\n\uFFFD \uFFFD")) ∧
      Cuts (front ++ statement ++ ";\n\uFFFD \uFFFD") (Position.span left right) statement := by
  intro front statement fixture
  have told : failure? (build {} "t" fixture) =
      some (.refused "t" ⟨1, 13⟩ ⟨2, 30⟩ (.assertUndefined "é")
        (front ++ statement ++ ";\n\uFFFD \uFFFD")) := by
    decide +kernel
  have refused := failure?_eq_some_iff.mp told
  refine ⟨_, _, refused, ?_⟩
  obtain ⟨_, _, _, _, _, ⟨_, _, undecoded⟩ | ⟨marked, _, _, cuts, same⟩⟩ := refusal_marks refused
  · cases undecoded
  · have bytes : (Segment.mk 13 30).bytes fixture = encode statement := by decide +kernel
    obtain rfl : marked = statement := encode_injective (same.trans bytes)
    exact cuts

end Test

end SqlFixture
