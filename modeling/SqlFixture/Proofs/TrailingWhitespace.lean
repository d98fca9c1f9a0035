import Mathlib.Data.List.DropRight
import SqlFixture.Proofs.Codeless

/-
**Whitespace behind a fixture.**

Newlines, spaces and tabs at the end add no chunk and move no terminator. They are skipped with the
blanks, or they become part of the last chunk if it runs to the end. What they do there depends on
what the chunk is.

* `Remainder.chunks_followedBy_white`: the chunks are the same, or the last one takes the
  whitespace;
* `Directive.Breaks`: the bare keywords that the whitespace turns into a directive with a part
  missing;
* `Meaning.extend`, `Means.extend`: what a text means with more behind it;
* `Progress.take_of_breaks`, `take_followedBy`: how the last chunk is read with the whitespace;
* `Test.EndsOpen`: a build whose last chunk runs to the end;
* `Test.build_append_white`: which fixtures still build, and with which assertions;
* `Test.whitespace_not_inert`: an expected row that gets longer, and a statement that is refused.
-/

namespace SqlFixture

open Directive

namespace Scan

/-- Newline, space and tab. -/
def isWhite (byte : UInt8) : Bool := byte == newline || isPadding byte

variable {bytes more : Bytes}

theorem isBlank_of_isWhite {byte : UInt8} (white : isWhite byte = true) : isBlank byte = true := by
  have here : isBlank byte = (isWhite byte || byte == semicolon) := rfl
  rw [here, white, Bool.true_or]

/-! ### The delimiter -/

theorem endsLine_of_white (white : more.all isWhite = true) : endsLine more = true := by
  induction more with
  | nil => rfl
  | cons byte more ih =>
    obtain ⟨first, later⟩ := Bool.and_eq_true_iff.mp white
    rw [endsLine, ih later, Bool.and_true]
    exact first

/-- A semicolon ends a line if it did before the whitespace was there. -/
theorem endsLine_append_white (white : more.all isWhite = true) :
    endsLine (bytes ++ more) = endsLine bytes := by
  have alone := endsLine_append bytes []
  rw [List.append_nil] at alone
  rw [endsLine_append, alone, endsLine_of_white white]
  rfl

/-- A statement ends where it ended before, or, if it ran to the end, behind the whitespace. -/
theorem statementEnd_append_white (white : more.all isWhite = true) :
    statementEnd (bytes ++ more) =
      if (statementEnd bytes).index < bytes.length then statementEnd bytes
      else Position.ofBytes (bytes ++ more) := by
  induction bytes with
  | nil =>
    rw [List.nil_append, statementEnd_eq_ofBytes more]
    have atEnd : (statementEnd more).index = more.length := by
      refine Nat.le_antisymm (statementEnd_index_le more) (Nat.le_of_not_lt fun inside => ?_)
      have ends := (statementEnd_first more).2 inside
      rw [isTerminator, Bool.and_eq_true, beq_iff_eq] at ends
      have member := List.mem_of_getElem? ends.1
      exact absurd (List.all_eq_true.mp white _ member) (by decide)
    rw [atEnd, List.take_length]
    rfl
  | cons byte rest ih =>
    rw [List.cons_append, statementEnd_cons, statementEnd_cons, endsLine_append_white white]
    by_cases ends : byte = semicolon ∧ endsLine rest
    · rw [if_pos ends, if_pos ends]
      exact (if_pos (Nat.succ_pos _)).symm
    · rw [if_neg ends, if_neg ends, ih, index_advance_add, List.length_cons]
      by_cases inside : (statementEnd rest).index < rest.length
      · rw [if_pos inside, if_pos (Nat.succ_lt_succ inside)]
      · rw [if_neg inside, if_neg fun later => inside (Nat.lt_of_succ_lt_succ later),
          advance_start, ← Position.ofBytes_append]
        rfl

/-! ### Comments -/

/-- A byte of whitespace neither opens nor closes a comment. -/
theorem not_sign_of_isWhite {byte : UInt8} (white : isWhite byte = true) :
    byte ≠ dash ∧ byte ≠ star ∧ byte ≠ slash := by
  refine ⟨?_, ?_, ?_⟩ <;> rintro rfl <;> exact absurd white (by decide)

/-- What is left behind the comments has the whitespace behind it; if nothing was left, something
of the whitespace may be. -/
theorem afterCommentsFrom_append_white (white : more.all isWhite = true) (mode : CommentMode)
    (bytes : Bytes) :
    afterCommentsFrom mode bytes ≠ [] ∧
        afterCommentsFrom mode (bytes ++ more) = afterCommentsFrom mode bytes ++ more ∨
      afterCommentsFrom mode bytes = [] ∧ afterCommentsFrom mode (bytes ++ more) <:+ more := by
  fun_induction afterCommentsFrom mode bytes with
  | case1 mode => exact .inr ⟨rfl, afterCommentsFrom_suffix mode more⟩
  | case2 =>
    refine .inr ⟨rfl, ?_⟩
    have skipped : afterCommentsFrom .code ([newline] ++ more) = afterComments more :=
      (afterComments_eq _).symm.trans (afterComments_newline more)
    rw [skipped]
    exact afterComments_suffix more
  | case3 byte other =>
    refine .inl ⟨List.cons_ne_nil _ _, ?_⟩
    cases more with
    | nil => rw [List.append_nil, afterCommentsFrom, if_neg other]
    | cons first more =>
      obtain ⟨noDash, noStar, _⟩ := not_sign_of_isWhite (Bool.and_eq_true_iff.mp white).1
      rw [List.singleton_append, afterCommentsFrom, if_neg other, if_neg fun both => noDash both.2,
        if_neg fun both => noStar both.2]
  | case4 second rest ih =>
    rw [List.cons_append, List.cons_append, afterCommentsFrom, if_pos rfl]
    exact ih
  | case5 first second rest skipped opens ih =>
    rw [List.cons_append, List.cons_append, afterCommentsFrom, if_neg skipped, if_pos opens]
    exact ih
  | case6 first second rest skipped noLine opens ih =>
    rw [List.cons_append, List.cons_append, afterCommentsFrom, if_neg skipped, if_neg noLine,
      if_pos opens]
    exact ih
  | case7 first second rest skipped noLine noBlock =>
    refine .inl ⟨List.cons_ne_nil _ _, ?_⟩
    rw [List.cons_append, List.cons_append, afterCommentsFrom, if_neg skipped, if_neg noLine,
      if_neg noBlock]
  | case8 rest ih =>
    rw [List.cons_append, afterCommentsFrom, if_pos rfl]
    exact ih
  | case9 byte rest inLine ih =>
    rw [List.cons_append, afterCommentsFrom, if_neg inLine]
    exact ih
  | case10 byte =>
    refine .inr ⟨rfl, ?_⟩
    cases more with
    | nil => exact List.suffix_refl _
    | cons first more =>
      obtain ⟨_, _, noSlash⟩ := not_sign_of_isWhite (Bool.and_eq_true_iff.mp white).1
      rw [List.singleton_append, afterCommentsFrom, if_neg fun both => noSlash both.2]
      exact afterCommentsFrom_suffix .block _
  | case11 first second rest ends ih =>
    rw [List.cons_append, List.cons_append, afterCommentsFrom, if_pos ends]
    exact ih
  | case12 first second rest goesOn ih =>
    rw [List.cons_append, List.cons_append, afterCommentsFrom, if_neg goesOn]
    exact ih

theorem afterComments_append_white (white : more.all isWhite = true) (bytes : Bytes) :
    afterComments bytes ≠ [] ∧ afterComments (bytes ++ more) = afterComments bytes ++ more ∨
      afterComments bytes = [] ∧ afterComments (bytes ++ more) <:+ more := by
  rw [afterComments_eq, afterComments_eq]
  exact afterCommentsFrom_append_white white .code bytes

/-! ### Padding -/

/-- What does not end in padding is kept in front of anything. -/
theorem rdropWhile_append {p : UInt8 → Bool} {front : Bytes} (solid : front.rdropWhile p = front)
    (behind : Bytes) : (front ++ behind).rdropWhile p = front ++ behind.rdropWhile p := by
  unfold List.rdropWhile at solid ⊢
  rw [List.reverse_append, List.dropWhile_append]
  cases left : behind.reverse.dropWhile p with
  | nil =>
    rw [List.isEmpty_nil, if_pos rfl, solid, List.reverse_nil, List.append_nil]
  | cons first later =>
    rw [List.isEmpty_cons, if_neg Bool.false_ne_true, List.reverse_append, List.reverse_reverse]

/-- The padding at the end is that behind the last solid byte. -/
theorem rtakeWhile_append {p : UInt8 → Bool} {behind : Bytes} {byte : UInt8}
    (member : byte ∈ behind) (solid : p byte = false) (front : Bytes) :
    (front ++ behind).rtakeWhile p = behind.rtakeWhile p := by
  unfold List.rtakeWhile
  have broken : (behind.reverse.takeWhile p).length ≠ behind.reverse.length := by
    intro same
    have all := List.all_takeWhile (p := p) (l := behind.reverse)
    rw [(List.takeWhile_sublist p).eq_of_length same] at all
    have padded := List.all_eq_true.mp all byte (List.mem_reverse.mpr member)
    rw [solid] at padded
    cases padded
  rw [List.reverse_append, List.takeWhile_append, if_neg broken]

/-- **Whitespace behind trimmed text** is kept up to its last newline, together with the padding
that was trimmed there. -/
theorem trim_append {body : Bytes} (inked : trim body ≠ []) (more : Bytes) :
    trim (body ++ more) =
      trim body ++ (body.rtakeWhile isPadding ++ more).rdropWhile isPadding := by
  have trimmed (list : Bytes) : trim list = (list.dropWhile isPadding).rdropWhile isPadding := rfl
  let core := body.dropWhile isPadding
  have someCore : core ≠ [] := by
    intro nothing
    rw [trimmed, show body.dropWhile isPadding = [] from nothing] at inked
    exact inked rfl
  obtain ⟨first, rest, begins⟩ := List.exists_cons_of_ne_nil someCore
  have solid : isPadding first = false := by
    have head := List.head_dropWhile_not isPadding (l := body) someCore
    simpa only [core, begins, List.head_cons] using head
  -- The padding at the end of the body is that at the end of what is solid in it.
  have divided : body = body.takeWhile isPadding ++ core := List.takeWhile_append_dropWhile.symm
  have padding : body.rtakeWhile isPadding = core.rtakeWhile isPadding := by
    conv => lhs; rw [divided]
    exact rtakeWhile_append (begins ▸ List.mem_cons_self) solid _
  have front : (body ++ more).dropWhile isPadding = core ++ more := by
    rw [List.dropWhile_append, if_neg fun empty => someCore (List.isEmpty_iff.mp empty)]
  calc trim (body ++ more) = (core ++ more).rdropWhile isPadding := by rw [trimmed, front]
    _ = (trim body ++ (core.rtakeWhile isPadding ++ more)).rdropWhile isPadding := by
      rw [← List.append_assoc]
      exact congrArg (fun list => (list ++ more).rdropWhile isPadding)
        (List.rdropWhile_append_rtakeWhile).symm
    _ = trim body ++ (body.rtakeWhile isPadding ++ more).rdropWhile isPadding := by
      rw [padding]
      exact rdropWhile_append (List.rdropWhile_idempotent isPadding core) _

theorem exists_solid_of_trim_ne_nil {body : Bytes} (inked : trim body ≠ []) :
    ∃ byte ∈ body, isPadding byte = false := by
  refine Classical.byContradiction fun none => inked ?_
  have padded : ∀ byte ∈ body, isPadding byte = true := fun byte member =>
    Bool.of_not_eq_false fun solid => none ⟨byte, member, solid⟩
  rw [trim, List.dropWhile_eq_nil_iff.mpr padded]
  rfl

end Scan

open Scan

/-! ### The chunks -/

/-- The chunk with more bytes behind it. -/
def Chunk.followedBy (more : Bytes) (chunk : Chunk) : Chunk :=
  ⟨chunk.left, chunk.right + Position.ofBytes more, chunk.source ++ more⟩

namespace Remainder

variable {remainder rest : Remainder} {chunk : Chunk} {more : Bytes}

/-- A cut that leaves something ends before the last byte. -/
theorem right_lt_last (cut : remainder.cut? statementEnd = some (chunk, rest))
    (inside : (statementEnd remainder.bytes).index < remainder.bytes.length) :
    chunk.right.index < remainder.last.index := by
  obtain ⟨_, _, _, _, cursor, bytes⟩ := cut?_eq_some_iff.mp cut
  have left : 0 < rest.bytes.length := by
    rw [bytes, List.length_drop]
    omega
  have same : rest.last.index = chunk.right.index + rest.bytes.length := by
    rw [← cursor]
    rfl
  rw [← last_of_cut cut, same]
  omega

/-- A cut that leaves nothing takes the whitespace as well. -/
theorem cut?_followedBy_of_atEnd (white : more.all isWhite = true)
    (cut : remainder.cut? statementEnd = some (chunk, rest))
    (atEnd : ¬(statementEnd remainder.bytes).index < remainder.bytes.length) :
    rest.bytes = [] ∧ chunk.right = remainder.last ∧
      (remainder.followedBy more).cut? statementEnd =
        some (chunk.followedBy more, ⟨(chunk.followedBy more).right, []⟩) := by
  obtain ⟨moved, left, source, _, cursor, bytes⟩ := cut?_eq_some_iff.mp cut
  have all : remainder.bytes.length ≤ (statementEnd remainder.bytes).index := Nat.le_of_not_lt atEnd
  have nothing : rest.bytes = [] := bytes.trans (List.drop_eq_nil_of_le all)
  have whole : chunk.source = remainder.bytes := source.trans (List.take_of_length_le all)
  have right : chunk.right = remainder.last := by
    rw [← last_of_cut cut, last, nothing, ← cursor]
    exact (Position.add_start _).symm
  refine ⟨nothing, right, cut?_eq_some_iff.mpr ?_⟩
  have mark : statementEnd (remainder.followedBy more).bytes =
      Position.ofBytes (remainder.bytes ++ more) :=
    (statementEnd_append_white white).trans (if_neg atEnd)
  have taken : (chunk.followedBy more).source = remainder.bytes ++ more :=
    congrArg (· ++ more) whole
  have length : (Position.ofBytes (remainder.bytes ++ more)).index =
      (remainder.bytes ++ more).length := rfl
  rw [mark, taken, length]
  refine ⟨?_, left, ?_, ?_, rfl, ?_⟩
  · have fits := statementEnd_index_le remainder.bytes
    rw [List.length_append]
    omega
  · exact (List.take_length).symm
  · show chunk.right + Position.ofBytes more = remainder.cursor + Position.ofBytes _
    rw [right, last, Position.add_assoc, ← Position.ofBytes_append]
  · exact (List.drop_length).symm

/-- **Whitespace behind a remainder** changes no chunk but the last one, and that one only if it
runs to the end. -/
theorem chunks_followedBy_white (white : more.all isWhite = true) (remainder : Remainder) :
    (((remainder.followedBy more).cutting statementEnd).chunks =
        (remainder.cutting statementEnd).chunks ∧
      ∀ chunk ∈ (remainder.cutting statementEnd).chunks,
        chunk.right.index < remainder.last.index) ∨
    ∃ (earlier : List Chunk) (final : Chunk),
      (remainder.cutting statementEnd).chunks = earlier ++ [final] ∧
      ((remainder.followedBy more).cutting statementEnd).chunks =
        earlier ++ [final.followedBy more] ∧
      final.right = remainder.last ∧
      ∀ chunk ∈ earlier, chunk.right.index < remainder.last.index := by
  have blank : ∀ byte ∈ more, isBlank byte = true := fun byte member =>
    isBlank_of_isWhite (List.all_eq_true.mp white byte member)
  induction remainder using cutting_induction statementEnd with
  | blank remainder nothing =>
    have still : (remainder.followedBy more).skipBlank.bytes = [] := by
      rw [skipBlank_followedBy_of_blank more nothing]
      have skipped := afterBlanks_append blank []
      rwa [List.append_nil] at skipped
    rw [cutting_of_blank nothing, cutting_of_blank still]
    exact .inl ⟨rfl, nofun⟩
  | stall remainder inked stalled =>
    exact absurd (cut?_eq_none_iff.mp stalled) (Segment.statementEnd_skipBlank_ne_zero inked)
  | cut remainder chunk rest inked cut ih =>
    have still : (remainder.followedBy more).skipBlank.bytes ≠ [] := by
      rw [skipBlank_followedBy more inked]
      exact List.append_ne_nil_of_left_ne_nil inked _
    have trimmed := skipBlank_followedBy more inked
    have behind : rest.last = remainder.last := (last_of_cut cut).trans (last_skipBlank remainder)
    by_cases inside :
        (statementEnd remainder.skipBlank.bytes).index < remainder.skipBlank.bytes.length
    · have same := (statementEnd_append_white white).trans (if_pos inside)
      have cutAlike := cut?_followedBy_of_eq more same cut
      rw [← trimmed] at cutAlike
      have before := right_lt_last cut inside
      rw [last_skipBlank] at before
      rw [cutting_of_cut inked cut, cutting_of_cut still cutAlike]
      rw [behind] at ih
      rcases ih with ⟨alike, ends⟩ | ⟨earlier, final, chunks, extended, right, ends⟩
      · exact .inl ⟨congrArg (chunk :: ·) alike, List.forall_mem_cons.mpr ⟨before, ends⟩⟩
      · exact .inr ⟨chunk :: earlier, final, congrArg (chunk :: ·) chunks,
          congrArg (chunk :: ·) extended, right, List.forall_mem_cons.mpr ⟨before, ends⟩⟩
    · obtain ⟨nothing, right, extended⟩ := cut?_followedBy_of_atEnd white cut inside
      rw [← trimmed] at extended
      have ended {place : Position} :
          ((⟨place, []⟩ : Remainder).cutting statementEnd).chunks = [] :=
        congrArg Cutting.chunks (cutting_of_blank rfl)
      have restEnded : (rest.cutting statementEnd).chunks = [] := by
        obtain ⟨cursor, bytes⟩ := rest
        obtain rfl : bytes = [] := nothing
        exact ended
      rw [cutting_of_cut inked cut, cutting_of_cut still extended, restEnded, ended]
      rw [last_skipBlank] at right
      exact .inr ⟨[], chunk, rfl, rfl, right, nofun⟩

end Remainder

/-! ### The last chunk -/

/-- The action of a text with more behind it; the rows of an assertion are trimmed. -/
def Action.extend (more gap : String) : Action → Action
  | .exec sql => .exec (sql ++ more)
  | .assert key query expected => .assert key query (expected ++ gap)
  | .except query substring => .except (query ++ more) substring

/-- The key, the query and the expected rows of an assertion. -/
def Action.assertion? : Action → Option (String × String × String)
  | .assert key query expected => some (key, query, expected)
  | _ => none

/-- Whether an assertion is the same but for more rows, no assertion is none, and what acts goes on
to act. -/
structure Action.Extends (gap : String) (action extended : Option Action) : Prop where
  rows : extended.bind Action.assertion? =
    (action.bind Action.assertion?).map fun parts => (parts.1, parts.2.1, parts.2.2 ++ gap)
  acts : action ≠ none → extended ≠ none

theorem Action.extends_map (more gap : String) (action : Option Action) :
    Action.Extends gap action (action.map (Action.extend more gap)) := by
  cases action with
  | none => exact ⟨rfl, fun acts => absurd rfl acts⟩
  | some action => cases action <;> exact ⟨rfl, fun _ => Option.some_ne_none _⟩

/-- Where nothing is added to rows, the assertion is the same. -/
theorem Action.Extends.rows_eq {gap : String} {action extended : Option Action}
    (extending : Extends gap action extended)
    (harmless : gap = "" ∨ action.bind Action.assertion? = none) :
    extended.bind Action.assertion? = action.bind Action.assertion? := by
  rw [extending.rows]
  rcases harmless with rfl | noRows
  · simp only [String.append_empty, Option.map_id']
  · rw [noRows]
    rfl

/-- The meaning of a text with more behind it; the rows of an assertion are trimmed. -/
def Meaning.extend (more gap : String) : Meaning → Meaning
  | .comment => .comment
  | .definition key query => .definition key (query ++ more)
  | .assertion key expected => .assertion key (expected ++ gap)
  | .exception query substring => .exception (query ++ more) substring
  | .plain sql => .plain (sql ++ more)

theorem Meaning.effect?_extend (more gap : String) {context : Context} {meaning : Meaning}
    {effect : Context × Option Action} (allowed : meaning.effect? context = some effect) :
    ∃ later, (meaning.extend more gap).effect? context =
      some (later, effect.2.map (Action.extend more gap)) := by
  cases meaning with
  | comment | exception query substring | plain sql =>
    cases allowed
    exact ⟨context, rfl⟩
  | definition key query =>
    obtain ⟨next, defined, rfl⟩ := Option.map_eq_some_iff.mp allowed
    obtain ⟨fresh, rfl⟩ := Context.define_eq_some_iff.mp defined
    refine ⟨context.insert key (query ++ more), ?_⟩
    show (definition key (query ++ more)).effect? context = _
    rw [effect?, Context.define_eq_some_iff.mpr ⟨fresh, rfl⟩]
    rfl
  | assertion key expected =>
    obtain ⟨query, bound, rfl⟩ := Option.map_eq_some_iff.mp allowed
    refine ⟨context, ?_⟩
    show (assertion key (expected ++ gap)).effect? context = _
    rw [effect?, bound]
    rfl

/-- A text keeps its meaning with more behind it, if no keyword is completed there. -/
theorem Means.extend {text more gap : String} {front probe : Bytes} {meaning : Meaning}
    (means : Means text probe meaning) (something : probe ≠ [])
    (free : ∀ keyword ∈ keywords,
      asciiBytes keyword <+: probe ++ Utf8.encode more → asciiBytes keyword <+: probe)
    (kept : Utf8.encode gap =
      ((front ++ probe).rtakeWhile isPadding ++ Utf8.encode more).rdropWhile isPadding) :
    Means (text ++ more) (probe ++ Utf8.encode more) (meaning.extend more gap) := by
  cases means with
  | comment nothing => exact absurd nothing something
  | definition whole inLine trimmed someKey someQuery word =>
    refine .definition ?_ inLine trimmed someKey ?_ word
    · rw [whole, Utf8.encode_append]
      simp only [List.append_assoc, List.cons_append]
    · rw [Utf8.encode_append]
      exact List.append_ne_nil_of_left_ne_nil someQuery _
  | @assertion body key expected whole trimmed inWord someRows =>
    have inked : trim body ≠ [] := by
      rw [trimmed]
      exact List.append_ne_nil_of_right_ne_nil _ (List.cons_ne_nil _ _)
    obtain ⟨byte, member, solid⟩ := exists_solid_of_trim_ne_nil inked
    have padding : (front ++ probe).rtakeWhile isPadding = body.rtakeWhile isPadding := by
      rw [whole, ← List.append_assoc]
      exact rtakeWhile_append member solid _
    have extended : probe ++ Utf8.encode more =
        asciiBytes "assert " ++ (body ++ Utf8.encode more) := by
      rw [whole, List.append_assoc]
    refine .assertion extended ?_ inWord ?_
    · rw [trim_append inked, ← padding, ← kept, trimmed, Utf8.encode_append, List.append_assoc]
      rfl
    · rw [Utf8.encode_append]
      exact List.append_ne_nil_of_left_ne_nil someRows _
  | exception whole inLine someText someQuery =>
    refine .exception ?_ inLine someText ?_
    · rw [whole, Utf8.encode_append]
      simp only [List.append_assoc, List.cons_append]
    · rw [Utf8.encode_append]
      exact List.append_ne_nil_of_left_ne_nil someQuery _
  | plain _ absent =>
    refine .plain (List.append_ne_nil_of_left_ne_nil something _) ?_
    exact fun keyword member found => absent keyword member (free keyword member found)

/-! ### Keywords that are completed -/

/-- Whether whitespace makes a directive of a bare keyword, and one that is refused. For an
exception this is so unless the whitespace has both of its parts. -/
def Directive.Breaks (probe more : Bytes) : Prop :=
  ∃ later, more = space :: later ∧
    (probe = asciiBytes "define" ∨ probe = asciiBytes "assert" ∨
      probe = asciiBytes "except" ∧ ∀ line query, later = line ++ newline :: query →
        newline ∉ line → line = [] ∨ query = [])

namespace Directive

variable {probe more : Bytes} {keyword : String}

/-- A keyword that whitespace completes lacks its space. -/
theorem bare_of_prefix (white : more.all isWhite = true) (member : keyword ∈ keywords)
    (found : asciiBytes keyword <+: probe ++ more) (absent : ¬asciiBytes keyword <+: probe) :
    asciiBytes keyword = probe ++ [space] ∧ ∃ later, more = space :: later := by
  obtain ⟨rest, whole⟩ := found
  rcases List.append_eq_append_iff.mp whole with ⟨inside, same, _⟩ | ⟨completed, same, taken⟩
  · exact absurd ⟨inside, same.symm⟩ absent
  · have letters : ∀ keyword ∈ keywords, ∀ count ≤ (asciiBytes keyword).length,
        ((asciiBytes keyword).drop count).all isWhite = true →
        (asciiBytes keyword).drop count = [] ∨ (asciiBytes keyword).drop count = [space] := by
      decide
    have count : probe.length ≤ (asciiBytes keyword).length := by
      rw [same, List.length_append]
      exact Nat.le_add_right _ _
    have rest : (asciiBytes keyword).drop probe.length = completed := by
      rw [same, List.drop_left]
    rw [taken, List.all_append, Bool.and_eq_true] at white
    rcases letters keyword member probe.length count (rest ▸ white.1) with nothing | last
    · rw [rest] at nothing
      rw [nothing, List.append_nil] at same
      exact absurd ⟨[], by rw [same, List.append_nil]⟩ absent
    · rw [rest] at last
      exact ⟨by rw [same, last], _, by rw [taken, last]; rfl⟩

/-- A keyword that is completed and still not refused is that of an exception, and the whitespace
has both of its parts. -/
theorem exists_of_completes {more : String} (white : (Utf8.encode more).all isWhite = true)
    (whole : ¬Breaks probe (Utf8.encode more))
    (completes : ¬∀ keyword ∈ keywords,
      asciiBytes keyword <+: probe ++ Utf8.encode more → asciiBytes keyword <+: probe) :
    probe = asciiBytes "except" ∧ ∃ line query : String,
      Utf8.encode more = space :: (Utf8.encode line ++ newline :: Utf8.encode query) ∧
      newline ∉ Utf8.encode line ∧ Utf8.encode line ≠ [] ∧ Utf8.encode query ≠ [] := by
  obtain ⟨keyword, member, found, absent⟩ : ∃ keyword ∈ keywords,
      asciiBytes keyword <+: probe ++ Utf8.encode more ∧ ¬asciiBytes keyword <+: probe :=
    Classical.byContradiction fun none => completes fun keyword member found =>
      Classical.byContradiction fun absent => none ⟨keyword, member, found, absent⟩
  obtain ⟨spelled, later, begins⟩ := bare_of_prefix white member found absent
  have word {letters : Bytes} (same : asciiBytes keyword = letters ++ [space]) :
      probe = letters := List.append_cancel_right (spelled.symm.trans same)
  rcases List.mem_cons.mp member with rfl | member
  · exact absurd ⟨later, begins, .inl (word rfl)⟩ whole
  rcases List.mem_cons.mp member with rfl | member
  · exact absurd ⟨later, begins, .inr (.inl (word rfl))⟩ whole
  obtain rfl := List.mem_singleton.mp member
  refine ⟨word rfl, ?_⟩
  obtain ⟨line, query, divided, inLine, someLine, someQuery⟩ : ∃ line query,
      later = line ++ newline :: query ∧ newline ∉ line ∧ line ≠ [] ∧ query ≠ [] := by
    refine Classical.byContradiction fun lacking => whole
      ⟨later, begins, .inr (.inr ⟨word rfl, fun line query divided inLine => ?_⟩)⟩
    by_cases noLine : line = []
    · exact .inl noLine
    by_cases noQuery : query = []
    · exact .inr noQuery
    · exact absurd ⟨line, query, divided, inLine, noLine, noQuery⟩ lacking
  have blank : ∀ byte ∈ line ++ newline :: query, isBlank byte = true := by
    intro byte inside
    refine isBlank_of_isWhite (List.all_eq_true.mp white byte ?_)
    rw [begins, divided]
    exact .tail _ inside
  obtain ⟨lineText, rfl⟩ := exists_encode_of_blank fun byte inside =>
    blank byte (List.mem_append_left _ inside)
  obtain ⟨queryText, rfl⟩ := exists_encode_of_blank fun byte inside =>
    blank byte (List.mem_append_right _ (.tail _ inside))
  exact ⟨lineText, queryText, by rw [begins, divided], inLine, someLine, someQuery⟩

end Directive

/-- A bare keyword is plain SQL. -/
theorem Means.plain_of_bare {text : String} {probe : Bytes} {meaning : Meaning}
    (means : Means text probe meaning)
    (bare : probe = asciiBytes "define" ∨ probe = asciiBytes "assert" ∨
      probe = asciiBytes "except") : meaning = .plain text := by
  have absent : probe ≠ [] ∧ ∀ keyword ∈ keywords, ¬asciiBytes keyword <+: probe := by
    rcases bare with rfl | rfl | rfl <;> decide
  exact means.eq_plain absent.1 absent.2

namespace Progress

variable {progress next : Progress} {chunk : Chunk} {more : Bytes}

/-- A word on one line is not all whitespace. -/
theorem exists_of_word {word : Bytes} (some_letter : word ≠ [])
    (solid : word.any isPadding = false) (inLine : newline ∉ word) :
    ∃ byte ∈ word, isWhite byte = false := by
  obtain ⟨byte, rest, rfl⟩ := List.exists_cons_of_ne_nil some_letter
  have other : byte ≠ newline := fun same => inLine (same ▸ List.mem_cons_self)
  refine ⟨byte, List.mem_cons_self, ?_⟩
  rw [List.any_cons, Bool.or_eq_false_iff] at solid
  rw [isWhite, solid.1, beq_false_of_ne other]
  rfl

/-- A bare keyword with whitespace behind it is refused. -/
theorem take_of_breaks (white : more.all isWhite = true)
    (definable : ∀ binding ∈ progress.context.entries,
      Context.Definable binding.1 binding.2)
    (breaks : Breaks chunk.probe more) :
    progress.take standard (chunk.followedBy more) ≠ .ok next := by
  intro taken
  have probe : (chunk.followedBy more).probe = chunk.probe ++ more := by
    obtain ⟨_, _, bare⟩ := breaks
    have something : chunk.probe ≠ [] := by
      rcases bare with same | same | ⟨same, _⟩ <;> rw [same] <;> decide
    rcases afterComments_append_white white chunk.source with ⟨_, left⟩ | ⟨nothing, _⟩
    · exact left
    · exact absurd nothing something
  obtain ⟨later, rfl, bare⟩ := breaks
  have spaces : ∀ byte ∈ later, isWhite byte = true :=
    List.all_eq_true.mp (Bool.and_eq_true_iff.mp white).2
  -- A key would be a word among the whitespace.
  have absent {word : Bytes} (some_letter : word ≠ []) (solid : word.any isPadding = false)
      (inLine : newline ∉ word) : ¬∀ byte ∈ word, byte ∈ later := by
    intro inside
    obtain ⟨byte, member, kept⟩ := exists_of_word some_letter solid inLine
    rw [spaces byte (inside byte member)] at kept
    cases kept
  obtain ⟨_, _, ⟨nothing, _⟩ | ⟨_, outcome, read, _⟩⟩ := take_eq_ok_iff.mp taken
  · have empty : chunk.probe ++ space :: later = [] := probe.symm.trans nothing
    exact List.append_ne_nil_of_right_ne_nil _ (List.cons_ne_nil _ _) empty
  · have read : interpret standard progress.context (chunk.probe ++ space :: later) =
        .ok outcome := probe ▸ read
    rcases bare with same | same | ⟨same, lacking⟩
    · rw [same] at read
      obtain ⟨key, query, line, split, trimmed, someKey, _, word, _⟩ :=
        defineBody_eq_ok_iff.mp ((interpret_define progress.context later).symm.trans read)
      obtain ⟨rfl, inLine⟩ := splitAround?_eq_some_iff.mp split
      obtain ⟨before, behind, whole, _⟩ := exists_eq_trim line
      rw [trimmed] at whole
      have part : ∀ byte ∈ Utf8.encode key, byte ∈ line := by
        intro byte member
        rw [whole]
        exact List.mem_append_left _ (List.mem_append_right _ member)
      exact absent someKey word (fun member => inLine (part _ member)) fun byte member =>
        List.mem_append_left _ (part byte member)
    · rw [same] at read
      obtain ⟨key, query, expected, split, _, bound, _⟩ :=
        assertBody_eq_ok_iff.mp ((interpret_assert progress.context later).symm.trans read)
      have canDefine := definable _ (Dictionary.find?_eq_some_iff.mp bound)
      obtain ⟨before, behind, whole, _⟩ := exists_eq_trim later
      rw [(splitAround?_eq_some_iff.mp split).1] at whole
      refine absent canDefine.someKey canDefine.word canDefine.inLine fun byte member => ?_
      rw [whole]
      exact List.mem_append_left _ (List.mem_append_right _ (List.mem_append_left _ member))
    · rw [same] at read
      obtain ⟨substring, query, split, someText, someQuery, _⟩ :=
        exceptBody_eq_ok_iff.mp ((interpret_except progress.context later).symm.trans read)
      obtain ⟨whole, inLine⟩ := splitAround?_eq_some_iff.mp split
      exact (lacking _ _ whole inLine).elim someText someQuery

/-- **A chunk with whitespace behind it** is read as before but for its last text, unless the
whitespace completes a keyword. -/
theorem take_followedBy {more gap : String} (white : (Utf8.encode more).all isWhite = true)
    (kept : Utf8.encode gap =
      (chunk.source.rtakeWhile isPadding ++ Utf8.encode more).rdropWhile isPadding)
    (taken : progress.take standard chunk = .ok next)
    (whole : ¬Breaks chunk.probe (Utf8.encode more)) :
    ∃ (context later : Context) (action extended : Option Action),
      next = progress.adopt chunk (context, action) ∧
      progress.take standard (chunk.followedBy (Utf8.encode more)) =
        .ok (progress.adopt (chunk.followedBy (Utf8.encode more)) (later, extended)) ∧
      Action.Extends gap action extended := by
  obtain ⟨text, meaning, ⟨context, action⟩, encoded, means, allowed, rfl⟩ :=
    take_eq_ok_iff_means.mp taken
  have source : (chunk.followedBy (Utf8.encode more)).source = Utf8.encode (text ++ more) := by
    rw [Utf8.encode_append, ← encoded]
    rfl
  rcases afterComments_append_white white chunk.source with
    ⟨something, probe⟩ | ⟨nothing, suffix⟩
  · have probe : (chunk.followedBy (Utf8.encode more)).probe =
        chunk.probe ++ Utf8.encode more := probe
    by_cases free : ∀ keyword ∈ keywords,
        asciiBytes keyword <+: chunk.probe ++ Utf8.encode more → asciiBytes keyword <+: chunk.probe
    · have divided : comments chunk.source ++ chunk.probe = chunk.source :=
        comments_append_afterComments _
      rw [← divided] at kept
      have extended := means.extend something free kept
      rw [← probe] at extended
      obtain ⟨later, allowedLater⟩ := Meaning.effect?_extend more gap allowed
      exact ⟨context, later, action, _, rfl, take_eq_ok_iff_means.mpr
        ⟨_, _, _, source, extended, allowedLater, rfl⟩, Action.extends_map more gap action⟩
    · -- The whitespace completes the keyword of an exception, and has both of its parts.
      obtain ⟨bare, line, query, divided, inLine, someLine, someQuery⟩ :=
        exists_of_completes white whole free
      obtain rfl := means.plain_of_bare (.inr (.inr bare))
      cases allowed
      refine ⟨_, _, _, some (.except query line), rfl, take_eq_ok_iff_means.mpr
        ⟨_, .exception query line, (progress.context, _), source, .exception ?_ inLine someLine
          someQuery, rfl, rfl⟩, rfl, fun _ => Option.some_ne_none _⟩
      rw [probe, bare, divided]
      rfl
  · -- The chunk is a comment, and stays one or leaves some of the whitespace.
    obtain rfl := means.eq_comment nothing
    cases allowed
    have leaves : LeavesBlank (chunk.followedBy (Utf8.encode more)).source := by
      cases left : afterComments (chunk.followedBy (Utf8.encode more)).source with
      | nil => exact .inl left
      | cons first rest =>
        have suffix : first :: rest <:+ Utf8.encode more := left ▸ suffix
        have member := suffix.subset List.mem_cons_self
        exact .inr ⟨first, rest, left,
          isBlank_of_isWhite (List.all_eq_true.mp white first member)⟩
    have extended := take_of_leavesBlank ⟨_, source⟩ leaves progress
    refine ⟨_, _, none, _, rfl, extended, ?_, fun acts => absurd rfl acts⟩
    cases (chunk.followedBy (Utf8.encode more)).plain? <;> rfl

end Progress

/-! ### A whole build -/

namespace Test

/-- The assertions of a test, in order. -/
def assertions (test : Test) : List (String × String × String) :=
  test.statements.filterMap fun statement => statement.action.assertion?

/-- The assertion of the statement recorded last stands at the end. -/
theorem assertions_of_adopt {test : Test} {before : Progress} {chunk : Chunk}
    {effect : Context × Option Action}
    (statements : test.statements.reverse = (before.adopt chunk effect).recorded) :
    test.assertions =
      (before.recorded.reverse.filterMap fun statement => statement.action.assertion?) ++
        (effect.2.bind Action.assertion?).toList := by
  obtain ⟨context, action⟩ := effect
  rw [assertions, List.reverse_eq_iff.mp statements, Progress.adopt, List.reverse_append,
    List.filterMap_append]
  cases action with
  | none => rfl
  | some action => cases action <;> rfl

section

variable {limit : Nat} {name : String} {fixture more : Bytes} {test : Test} {earlier : List Chunk}
  {final : Chunk} (built : build { limit := limit } name fixture = .ok test)

include built

/-- The last chunk, and what is read before it. -/
theorem exists_before_final
    (chunks : ((Remainder.whole fixture).cutting statementEnd).chunks = earlier ++ [final]) :
    ∃ before, Progress.start.takeAll standard earlier = .ok before ∧
      before.take standard final = .ok ⟨test.context, test.statements.reverse⟩ ∧
      (∀ binding ∈ before.context.entries, Context.Definable binding.1 binding.2) ∧
      ∀ statement ∈ before.recorded, ∃ chunk ∈ earlier, statement.right = chunk.right := by
  have taken := (build_eq_ok_iff.mp built).2.2.1
  have statements := Remainder.isStatement_of_mem_chunks (.whole fixture)
  rw [chunks] at taken statements
  obtain ⟨before, takenBefore, takenFinal⟩ := Progress.takeAll_concat_eq_ok_iff.mp taken
  have reproducible := (Progress.reproducible_of_takeAll (fun chunk member =>
    statements chunk (List.mem_append_left _ member)) Progress.reproducible_start takenBefore).1
  refine ⟨before, takenBefore, takenFinal, reproducible.definable, fun statement member => ?_⟩
  rcases Progress.mem_recorded_of_takeAll takenBefore member with old | ⟨chunk, among, _, right, _⟩
  · exact absurd old List.not_mem_nil
  · exact ⟨chunk, among, right⟩

/-- Where the chunks are the same, so is the test. -/
theorem build_of_alike (called : String)
    (alike : ((Remainder.whole (fixture ++ more)).cutting statementEnd).chunks =
      ((Remainder.whole fixture).cutting statementEnd).chunks) :
    build { limit := limit } called (fixture ++ more) =
      .ok ⟨called, test.context, test.statements⟩ := by
  obtain ⟨few, _, taken, something, _⟩ := build_eq_ok_iff.mp built
  refine build_eq_ok_iff.mpr ⟨?_, Remainder.stall_whole _, ?_, something, rfl⟩
  · rw [alike]
    exact few
  · rw [alike]
    exact taken

/-- Where only the last chunk is another one, its reading decides. -/
theorem build_eq_ok_iff_final {again : Test} {called : String} {before : Progress} {other : Chunk}
    (chunks : ((Remainder.whole fixture).cutting statementEnd).chunks = earlier ++ [final])
    (changed : ((Remainder.whole (fixture ++ more)).cutting statementEnd).chunks =
      earlier ++ [other])
    (takenBefore : Progress.start.takeAll standard earlier = .ok before) :
    build { limit := limit } called (fixture ++ more) = .ok again ↔
      before.take standard other = .ok ⟨again.context, again.statements.reverse⟩ ∧
        again.statements ≠ [] ∧ again.name = called := by
  have few := (build_eq_ok_iff.mp built).1
  rw [chunks, List.length_append] at few
  rw [build_eq_ok_iff, changed, List.length_append, Progress.takeAll_concat_eq_ok_iff]
  constructor
  · rintro ⟨_, _, ⟨reached, same, taken⟩, acting⟩
    obtain rfl : before = reached := Except.ok.inj (takenBefore.symm.trans same)
    exact ⟨taken, acting⟩
  · rintro ⟨taken, acting⟩
    exact ⟨few, Remainder.stall_whole _, ⟨before, takenBefore, taken⟩, acting⟩

end

/-- A chunk that runs to the end has the padding at the end. -/
theorem rtakeWhile_of_atEnd {fixture : Bytes} {chunk : Chunk}
    (member : chunk ∈ ((Remainder.whole fixture).cutting statementEnd).chunks)
    (atEnd : chunk.right.index = fixture.length) :
    chunk.source.rtakeWhile isPadding = fixture.rtakeWhile isPadding := by
  obtain ⟨first, later, begins, solid⟩ :=
    Remainder.begins_of_mem_chunks statementEnd (.whole fixture) chunk member
  have slice := (Segment.extent_chunks fixture).2 chunk member
  have tail : fixture.drop chunk.left.index = chunk.source := by
    rw [← slice, Segment.bytes, Chunk.extent, atEnd, ← List.length_drop, List.take_length]
  have inked : isPadding first = false := by
    rw [isBlank, Bool.or_eq_false_iff, Bool.or_eq_false_iff] at solid
    exact solid.1.2
  conv => rhs; rw [← List.take_append_drop chunk.left.index fixture, tail]
  refine (rtakeWhile_append ?_ inked _).symm
  rw [begins]
  exact List.mem_cons_self

/-- Padding behind padding is trimmed. -/
theorem rdropWhile_of_padding {fixture more : Bytes} (white : more.all isWhite = true)
    (inLine : newline ∉ more) :
    (fixture.rtakeWhile isPadding ++ more).rdropWhile isPadding = [] := by
  refine List.rdropWhile_eq_nil_iff.mpr fun byte member => ?_
  rcases List.mem_append.mp member with front | behind
  · exact List.mem_rtakeWhile_imp front
  · have here := List.all_eq_true.mp white byte behind
    have other : byte ≠ newline := fun same => inLine (same ▸ behind)
    rwa [isWhite, beq_false_of_ne other, Bool.false_or] at here

/-- What of the whitespace is kept is text. -/
theorem exists_encode_of_kept (fixture : Bytes) {more : Bytes} (white : more.all isWhite = true) :
    ∃ gap : String, Utf8.encode gap =
      (fixture.rtakeWhile isPadding ++ more).rdropWhile isPadding := by
  refine exists_encode_of_blank fun byte member => isBlank_of_isWhite ?_
  rcases List.mem_append.mp ((List.rdropWhile_prefix isPadding _).subset member) with
    front | behind
  · rw [isWhite, List.mem_rtakeWhile_imp front, Bool.or_true]
  · exact List.all_eq_true.mp white byte behind

/-- A build whose last chunk runs to the end of the fixture, and so takes what is put behind it. -/
structure EndsOpen (limit : Nat) (fixture more : Bytes) (test : Test) (before : Progress)
    (final : Chunk) : Prop where
  takenFinal : before.take standard final = .ok ⟨test.context, test.statements.reverse⟩
  definable : ∀ binding ∈ before.context.entries, Context.Definable binding.1 binding.2
  something : test.statements ≠ []
  inside : ∀ statement ∈ before.recorded, statement.right.index < fixture.length
  atEnd : final.right.index = fixture.length
  padding : final.source.rtakeWhile isPadding = fixture.rtakeWhile isPadding
  decides : ∀ (called : String) (again : Test),
    build { limit := limit } called (fixture ++ more) = .ok again ↔
      before.take standard (final.followedBy more) =
          .ok ⟨again.context, again.statements.reverse⟩ ∧
        again.statements ≠ [] ∧ again.name = called

/-- Either no statement reaches the end and the test stays what it is, or the last chunk does. -/
theorem alike_or_endsOpen {limit : Nat} {name : String} {fixture more : Bytes} {test : Test}
    (built : build { limit := limit } name fixture = .ok test)
    (white : more.all isWhite = true) :
    ((∀ statement ∈ test.statements, statement.right.index ≠ fixture.length) ∧
      ∀ called, build { limit := limit } called (fixture ++ more) =
        .ok ⟨called, test.context, test.statements⟩) ∨
    ∃ before final, EndsOpen limit fixture more test before final := by
  have length : (Remainder.whole fixture).last.index = fixture.length := Nat.zero_add _
  obtain ⟨_, _, taken, something, _⟩ := build_eq_ok_iff.mp built
  rcases Remainder.chunks_followedBy_white white (.whole fixture) with
    ⟨alike, inside⟩ | ⟨earlier, final, chunks, extended, right, inside⟩
  · refine .inl ⟨fun statement member => ?_, fun called => build_of_alike built called alike⟩
    rcases Progress.mem_recorded_of_takeAll taken (List.mem_reverse.mpr member) with
      old | ⟨chunk, among, _, right, _⟩
    · exact absurd old List.not_mem_nil
    · rw [right, ← length]
      exact Nat.ne_of_lt (inside chunk among)
  · rw [length] at inside
    have atEnd : final.right.index = fixture.length := by rw [right, length]
    have listed : final ∈ ((Remainder.whole fixture).cutting statementEnd).chunks := by
      rw [chunks]
      exact List.mem_append_right _ (List.mem_singleton.mpr rfl)
    obtain ⟨before, takenBefore, takenFinal, definable, places⟩ := exists_before_final built chunks
    refine .inr ⟨before, final, takenFinal, definable, something, fun statement member => ?_, atEnd,
      rtakeWhile_of_atEnd listed atEnd,
      fun called again => build_eq_ok_iff_final built chunks extended takenBefore⟩
    obtain ⟨chunk, among, place⟩ := places statement member
    rw [place]
    exact inside chunk among

namespace EndsOpen

variable {limit : Nat} {fixture more : Bytes} {test : Test} {before : Progress} {final : Chunk}
  (ends : EndsOpen limit fixture more test before final)

include ends

/-- The statement of the last chunk is the one that runs to the end. -/
theorem mem_statements_iff {effect : Context × Option Action}
    (adopts : (⟨test.context, test.statements.reverse⟩ : Progress) = before.adopt final effect)
    {statement : Statement} :
    statement ∈ test.statements ∧ statement.right.index = fixture.length ↔
      ∃ action, effect.2 = some action ∧
        statement = ⟨final.left, final.right, final.source, action⟩ := by
  have recorded : test.statements.reverse = (before.adopt final effect).recorded :=
    congrArg Progress.recorded adopts
  rw [← List.mem_reverse, recorded, Progress.adopt, List.mem_append, Option.mem_toList,
    Option.map_eq_some_iff]
  constructor
  · rintro ⟨⟨action, acts, rfl⟩ | old, place⟩
    · exact ⟨action, acts, rfl⟩
    · exact absurd place (Nat.ne_of_lt (ends.inside statement old))
  · rintro ⟨action, acts, rfl⟩
    exact ⟨.inl ⟨action, acts, rfl⟩, ends.atEnd⟩

/-- A bare keyword at the end is a statement. -/
theorem exists_statement_of_breaks (breaks : Breaks final.probe more) :
    ∃ statement ∈ test.statements, statement.right.index = fixture.length ∧
      Breaks (afterComments statement.source) more := by
  obtain ⟨text, meaning, effect, _, means, allowed, adopts⟩ :=
    Progress.take_eq_ok_iff_means.mp ends.takenFinal
  have bare : final.probe = asciiBytes "define" ∨ final.probe = asciiBytes "assert" ∨
      final.probe = asciiBytes "except" := by
    obtain ⟨_, _, bare⟩ := breaks
    exact bare.imp_right (Or.imp_right And.left)
  obtain rfl := means.plain_of_bare bare
  cases allowed
  obtain ⟨member, place⟩ := (ends.mem_statements_iff adopts).mpr ⟨.exec text, rfl, rfl⟩
  exact ⟨_, member, place, breaks⟩

/-- What the last chunk comes to with the whitespace, unless a bare keyword is broken. -/
theorem exists_adopt {moreText gap : String} (same : Utf8.encode moreText = more)
    (white : more.all isWhite = true)
    (kept : Utf8.encode gap = (fixture.rtakeWhile isPadding ++ more).rdropWhile isPadding)
    (whole : ¬Breaks final.probe more) :
    ∃ (context later : Context) (action acting : Option Action),
      (⟨test.context, test.statements.reverse⟩ : Progress) =
        before.adopt final (context, action) ∧
      (∀ called again, build { limit := limit } called (fixture ++ more) = .ok again ↔
        again = ⟨called, later,
          (before.adopt (final.followedBy more) (later, acting)).recorded.reverse⟩) ∧
      Action.Extends gap action acting := by
  subst same
  rw [← ends.padding] at kept
  obtain ⟨context, later, action, acting, adopts, takenMore, extending⟩ :=
    Progress.take_followedBy white kept ends.takenFinal whole
  refine ⟨context, later, action, acting, adopts, fun called again => ?_, extending⟩
  rw [ends.decides, takenMore, Except.ok.injEq]
  constructor
  · rintro ⟨same, _, rfl⟩
    have statements := congrArg Progress.recorded same
    have context : later = again.context := congrArg Progress.context same
    rw [statements, context, List.reverse_reverse]
  · rintro rfl
    refine ⟨by rw [List.reverse_reverse]; rfl, fun nothing => ?_, rfl⟩
    -- Whatever was recorded before is recorded now.
    have acts : (before.adopt final (context, action)).recorded ≠ [] := by
      rw [← adopts]
      exact fun nothing => ends.something (List.reverse_eq_nil_iff.mp nothing)
    have nothing := List.reverse_eq_nil_iff.mp nothing
    cases action with
    | none => exact acts (List.append_eq_nil_iff.mp nothing).2
    | some action =>
      obtain ⟨acting, rfl⟩ :=
        Option.ne_none_iff_exists'.mp (extending.acts (Option.some_ne_none action))
      cases nothing

end EndsOpen

/-- **Whitespace behind a fixture.** Let a fixture build, with the usual delimiter and the usual
chain, and let newlines, spaces and tabs stand behind it. Then it builds as well, unless it ends in
a bare keyword that becomes a directive with a part missing. And if it builds, its assertions are
the same ones, except that an assertion that runs to the end of the fixture keeps in its rows what
stands behind them up to the last newline. -/
theorem build_append_white {limit : Nat} {name : String} {fixture : Bytes} {test : Test}
    (built : build { limit := limit } name fixture = .ok test) {more : Bytes}
    (white : more.all isWhite = true) (called : String) :
    ((∃ again, build { limit := limit } called (fixture ++ more) = .ok again) ↔
      ∀ statement ∈ test.statements, statement.right.index = fixture.length →
        ¬Breaks (afterComments statement.source) more) ∧
    ∀ again, build { limit := limit } called (fixture ++ more) = .ok again →
      ((newline ∉ more ∨ ∀ statement ∈ test.statements,
          statement.right.index = fixture.length → statement.action.assertion? = none) →
        again.assertions = test.assertions) ∧
      ∀ statement ∈ test.statements, statement.right.index = fixture.length →
        ∀ key query expected, statement.action = .assert key query expected →
        ∃ (earlier : List (String × String × String)) (gap : String),
          test.assertions = earlier ++ [(key, query, expected)] ∧
          again.assertions = earlier ++ [(key, query, expected ++ gap)] ∧
          Utf8.encode gap = (fixture.rtakeWhile isPadding ++ more).rdropWhile isPadding := by
  rcases alike_or_endsOpen built white with ⟨inside, same⟩ | ⟨before, final, ends⟩
  · refine ⟨⟨fun _ statement member place => absurd place (inside statement member),
      fun _ => ⟨_, same called⟩⟩, fun again accepted => ⟨fun _ => ?_, fun statement member place =>
        absurd place (inside statement member)⟩⟩
    rw [same] at accepted
    cases accepted
    rfl
  by_cases breaks : Breaks final.probe more
  · have refused (again : Test) :
        build { limit := limit } called (fixture ++ more) ≠ .ok again := by
      intro accepted
      obtain ⟨taken, _⟩ := (ends.decides called again).mp accepted
      exact Progress.take_of_breaks white ends.definable breaks taken
    obtain ⟨statement, member, place, bare⟩ := ends.exists_statement_of_breaks breaks
    exact ⟨⟨fun ⟨again, accepted⟩ => absurd accepted (refused again),
      fun whole => absurd bare (whole statement member place)⟩,
      fun again accepted => absurd accepted (refused again)⟩
  · obtain ⟨moreText, text⟩ := exists_encode_of_blank fun byte member =>
      isBlank_of_isWhite (List.all_eq_true.mp white byte member)
    obtain ⟨gap, kept⟩ := exists_encode_of_kept fixture white
    obtain ⟨context, later, action, acting, adopts, decides, extending⟩ :=
      ends.exists_adopt text white kept breaks
    have assertions := assertions_of_adopt (congrArg Progress.recorded adopts)
    refine ⟨⟨fun _ statement member place => ?_, fun _ => ⟨_, (decides called _).mpr rfl⟩⟩,
      fun again accepted => ?_⟩
    · obtain ⟨_, _, rfl⟩ := (ends.mem_statements_iff adopts).mp ⟨member, place⟩
      exact breaks
    have recorded : again.statements.reverse =
        (before.adopt (final.followedBy more) (later, acting)).recorded := by
      rw [(decides called again).mp accepted]
      exact List.reverse_reverse _
    have assertionsMore := assertions_of_adopt recorded
    refine ⟨fun harmless => ?_, fun statement member place key query expected asserts => ?_⟩
    · rw [assertions, assertionsMore]
      refine congrArg (_ ++ Option.toList ·) (extending.rows_eq ?_)
      rcases harmless with inLine | noRows
      · rw [rdropWhile_of_padding white inLine] at kept
        exact .inl (Utf8.encode_injective kept)
      · refine .inr (Option.bind_eq_none_iff.mpr fun action acts => ?_)
        obtain ⟨member, place⟩ := (ends.mem_statements_iff adopts).mpr ⟨action, acts, rfl⟩
        exact noRows _ member place
    · obtain ⟨action, rfl, rfl⟩ := (ends.mem_statements_iff adopts).mp ⟨member, place⟩
      obtain rfl : action = .assert key query expected := asserts
      rw [extending.rows] at assertionsMore
      exact ⟨_, gap, assertions, assertionsMore, kept⟩

/-- A padded assertion with two lines and a space behind it, of which the space is trimmed. -/
theorem build_append_white_of_newlines :
    let fixture := asciiBytes "define K\nSELECT 1;\nassert K 1 "
    let more := asciiBytes "\n\t\n "
    ∃ test again, build { limit := 2 } "t" fixture = .ok test ∧
      build { limit := 2 } "u" (fixture ++ more) = .ok again ∧
      test.assertions = [("K", "SELECT 1", "1")] ∧
      again.assertions = [("K", "SELECT 1", "1 \n\t\n")] := by
  intro fixture more
  have told : (build { limit := 2 } "t" fixture).toOption.map Test.statements =
      some [⟨⟨2, 19⟩, ⟨2, 30⟩, asciiBytes "assert K 1 ", .assert "K" "SELECT 1" "1"⟩] := by
    decide +kernel
  have white : more.all isWhite = true := by decide +kernel
  obtain ⟨test, built, statements⟩ := exists_of_toOption told
  have whitespace := build_append_white built white "u"
  obtain ⟨again, builtAgain⟩ := whitespace.1.mpr (by
    rintro _ _ _ ⟨later, begins, _⟩
    exact absurd (List.cons.inj begins).1 (by decide))
  obtain ⟨earlier, gap, before, behind, kept⟩ := (whitespace.2 again builtAgain).2
    ⟨⟨2, 19⟩, ⟨2, 30⟩, asciiBytes "assert K 1 ", .assert "K" "SELECT 1" "1"⟩
    (statements ▸ List.mem_singleton.mpr rfl) (by decide +kernel) _ _ _ rfl
  have same : test.assertions = [("K", "SELECT 1", "1")] := by
    rw [assertions, statements]
    rfl
  obtain rfl : earlier = [] := List.append_cancel_right (before.symm.trans same)
  obtain rfl : gap = " \n\t\n" := Utf8.encode_injective (kept.trans (by decide +kernel))
  exact ⟨test, again, built, builtAgain, same, behind⟩

/-- **A final newline is not inert**: it becomes part of the expected rows of an assertion that runs
to the end. And a final space makes a definition of the plain SQL `define`, which is refused. -/
theorem whitespace_not_inert :
    (let fixture := asciiBytes "define K\nSELECT 1;\nassert K 1"
      let more := asciiBytes "\n"
      more.all isWhite = true ∧
      (∃ test, build { limit := 2 } "t" fixture = .ok test ∧
        test.assertions = [("K", "SELECT 1", "1")]) ∧
      ∃ again, build { limit := 2 } "t" (fixture ++ more) = .ok again ∧
        again.assertions = [("K", "SELECT 1", "1\n")]) ∧
    (let fixture := asciiBytes "SELECT 1;\ndefine"
      let more := asciiBytes " "
      more.all isWhite = true ∧
      (∃ test, build { limit := 2 } "t" fixture = .ok test ∧
        test.statements.map Statement.action = [.exec "SELECT 1", .exec "define"]) ∧
      ∀ limit again, build { limit := limit } "t" (fixture ++ more) ≠ .ok again) := by
  constructor
  · intro fixture more
    have told : (build { limit := 2 } "t" fixture).toOption.map Test.assertions =
        some [("K", "SELECT 1", "1")] := by
      decide +kernel
    have toldMore : (build { limit := 2 } "t" (fixture ++ more)).toOption.map Test.assertions =
        some [("K", "SELECT 1", "1\n")] := by
      decide +kernel
    exact ⟨by decide +kernel, exists_of_toOption told, exists_of_toOption toldMore⟩
  · intro fixture more
    have told : (build { limit := 2 } "t" fixture).toOption.map
        (fun test => test.statements.map Statement.action) =
        some [.exec "SELECT 1", .exec "define"] := by
      decide +kernel
    refine ⟨by decide +kernel, exists_of_toOption told, fun limit again built => ?_⟩
    obtain ⟨_, _, taken, _⟩ := build_eq_ok_iff.mp built
    have refused : (Progress.start.takeAll standard
        ((Remainder.whole (fixture ++ more)).cutting statementEnd).chunks).toOption.isNone := by
      decide +kernel
    rw [taken] at refused
    cases refused

end Test

end SqlFixture
