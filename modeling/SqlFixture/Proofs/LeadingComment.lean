import SqlFixture.Proofs.CommentRun
import SqlFixture.Proofs.Joined
import SqlFixture.Proofs.Rebuild

/-
**A block comment in front of a fixture.**

The delimiter knows nothing of comments, and only newlines are skipped behind one. So a comment
line in front becomes part of what the fixture has before its first terminator. It changes no test
as long as the comment does not end a line with a semicolon, and the fixture does not begin with
other blanks than newlines; these may only stand in front of plain SQL, which then carries them.

* `Scan.unbroken_blockComment`: a comment in which no semicolon ends a line;
* `Scan.opening`: what a fixture has before its first terminator;
* `Scan.TakesComment`: the fixtures that allow a comment in front;
* `Remainder.chunks_of_blank_opening`, `Remainder.chunks_of_inked_opening`: the first chunk;
* `Progress.take_carrying`: a chunk with more in front;
* `Test.build_behind_comment`: the same test, but for what its first statement carries;
* `Test.comment_not_inert`: two fixtures and comments for which it is not the same.
-/

namespace SqlFixture

open Directive

namespace Scan

/-! ### The comment -/

theorem unbroken_blockComment {body rest : Bytes} (unbroken : Unbroken body)
    (later : Unbroken rest) : Unbroken (blockComment body ++ rest) := by
  have regrouped : blockComment body ++ rest = [slash, star] ++ (body ++ star :: slash :: rest) := by
    rw [blockComment, List.cons_append, List.cons_append, List.append_assoc]
    rfl
  have closing : Unbroken (star :: slash :: rest) :=
    ⟨fun ends => absurd ends.1 (by decide), fun ends => absurd ends.1 (by decide), later⟩
  rw [regrouped]
  exact (unbroken.append_solid rfl closing).append (by decide)

/-- No terminator stands in an unbroken text, if its last byte settles whether it ends a line. -/
theorem length_lt_statementEnd {text rest : Bytes} {last : UInt8}
    (unbroken : Unbroken (text ++ [last])) (other : last ≠ semicolon)
    (settled : endsLine (last :: rest) = breaksLine [last]) :
    text.length < (statementEnd (text ++ last :: rest)).index := by
  induction text with
  | nil =>
    rw [List.nil_append, statementEnd_cons, if_neg fun ends => other ends.1]
    exact Nat.lt_of_lt_of_le Nat.zero_lt_one (Nat.le_add_right 1 _)
  | cons byte text ih =>
    have ends : endsLine (text ++ last :: rest) = breaksLine (text ++ [last]) := by
      rw [endsLine_append, breaksLine_append, settled]
    have goesOn : ¬(byte = semicolon ∧ breaksLine (text ++ [last])) := unbroken.1
    rw [List.cons_append, statementEnd_cons, ends, if_neg goesOn]
    show text.length + 1 < 1 + _
    have later := ih unbroken.2
    omega

/-! ### What stands before the first terminator -/

/-- The bytes before the first terminator. -/
def opening (bytes : Bytes) : Bytes := bytes.take (statementEnd bytes).index

/-- Behind the blanks, the first terminator is the same. -/
theorem statementEnd_afterBlanks {bytes : Bytes}
    (skipped : blanks bytes = blanks (opening bytes)) :
    statementEnd bytes =
        Position.ofBytes (blanks (opening bytes)) + statementEnd (afterBlanks bytes) ∧
      (statementEnd (afterBlanks bytes)).index = (afterBlanks (opening bytes)).length := by
  have length : (opening bytes).length = (statementEnd bytes).index :=
    List.length_take_of_le (statementEnd_index_le bytes)
  -- The blanks are part of the opening, so that no terminator stands among them.
  have divided := congrArg List.length (blanks_append_afterBlanks (opening bytes))
  rw [List.length_append] at divided
  have regrouped : blanks (opening bytes) ++ afterBlanks bytes = bytes := by
    rw [← skipped, blanks_append_afterBlanks]
  have within : (blanks (opening bytes)).length ≤
      (statementEnd (blanks (opening bytes) ++ afterBlanks bytes)).index := by
    rw [regrouped, ← length]
    omega
  have mark := statementEnd_append_of_le within
  rw [regrouped] at mark
  have indices : (statementEnd bytes).index = (blanks (opening bytes)).length +
      (statementEnd (afterBlanks bytes)).index := congrArg Position.index mark
  exact ⟨mark, by omega⟩

/-- Whether a text is plain SQL: not all of it is comment, and no directive follows the comments. -/
def IsPlain (text : Bytes) : Prop :=
  afterComments text ≠ [] ∧ ∀ keyword ∈ keywords, ¬asciiBytes keyword <+: afterComments text

/-- Whether a comment line may stand in front: before the first terminator stand no blanks but
newlines, or there is plain SQL behind them. -/
def TakesComment (fixture : Bytes) : Prop :=
  (∀ byte ∈ blanks (opening fixture), byte = newline) ∨ IsPlain (afterBlanks (opening fixture))

/-- Newlines are skipped behind a comment. -/
theorem afterComments_newlines {before : Bytes} (newlines : ∀ byte ∈ before, byte = newline)
    (rest : Bytes) : afterComments (before ++ rest) = afterComments rest := by
  induction before with
  | nil => rfl
  | cons byte before ih =>
    obtain rfl := newlines byte List.mem_cons_self
    have others : ∀ other ∈ before, other = newline := fun other later =>
      newlines other (.tail _ later)
    rw [List.cons_append, afterComments_newline, ih others]

/-- Other blanks are not. -/
theorem afterComments_cons_of_isBlank {byte : UInt8} (blank : isBlank byte = true)
    (other : byte ≠ newline) (rest : Bytes) : afterComments (byte :: rest) = byte :: rest := by
  have noDash : byte ≠ dash := by
    rintro rfl
    exact absurd blank (by decide)
  have noSlash : byte ≠ slash := by
    rintro rfl
    exact absurd blank (by decide)
  rw [afterComments_eq]
  cases rest with
  | nil => rw [afterCommentsFrom, if_neg other]
  | cons second more =>
    rw [afterCommentsFrom, if_neg other, if_neg fun both => noDash both.1,
      if_neg fun both => noSlash both.1]

theorem afterComments_blanks {before : Bytes} (blank : ∀ byte ∈ before, isBlank byte = true)
    (others : ¬∀ byte ∈ before, byte = newline) (rest : Bytes) :
    ∃ first later, isBlank first = true ∧ afterComments (before ++ rest) = first :: later := by
  induction before with
  | nil => exact absurd nofun others
  | cons byte before ih =>
    have isBlank := blank byte List.mem_cons_self
    by_cases skipped : byte = newline
    · subst skipped
      have still : ¬∀ other ∈ before, other = newline := fun newlines =>
        others (List.forall_mem_cons.mpr ⟨rfl, newlines⟩)
      rw [List.cons_append, afterComments_newline]
      exact ih (fun other later => blank other (.tail _ later)) still
    · exact ⟨byte, before ++ rest, isBlank, afterComments_cons_of_isBlank isBlank skipped _⟩

/-- No keyword begins with a blank. -/
theorem isPlain_of_isBlank {text rest : Bytes} {first : UInt8}
    (probe : afterComments text = first :: rest) (blank : isBlank first = true) : IsPlain text := by
  unfold IsPlain
  rw [probe]
  refine ⟨List.cons_ne_nil _ _, fun keyword member found => ?_⟩
  have letters : ∀ keyword ∈ keywords,
      (asciiBytes keyword).head?.map Scan.isBlank = some false := by decide
  have letter := letters keyword member
  cases spelled : asciiBytes keyword with
  | nil => rw [spelled] at letter; cases letter
  | cons byte more =>
    rw [spelled] at letter found
    rw [(List.cons_prefix_cons.mp found).1, List.head?_cons, Option.map_some, blank] at letter
    cases letter

/-- With other blanks in front, every text is plain. -/
theorem isPlain_blanks {before : Bytes} (blank : ∀ byte ∈ before, isBlank byte = true)
    (others : ¬∀ byte ∈ before, byte = newline) (rest : Bytes) : IsPlain (before ++ rest) := by
  obtain ⟨first, later, isBlank, probe⟩ := afterComments_blanks blank others rest
  exact isPlain_of_isBlank probe isBlank

/-- Blanks are text. -/
theorem exists_encode_of_blank {bytes : Bytes} (blank : ∀ byte ∈ bytes, isBlank byte = true) :
    ∃ text : String, Utf8.encode text = bytes := by
  induction bytes with
  | nil => exact ⟨"", rfl⟩
  | cons byte bytes ih =>
    obtain ⟨text, rfl⟩ := ih fun other later => blank other (.tail _ later)
    have first := blank byte List.mem_cons_self
    simp only [isBlank, isPadding, Bool.or_eq_true, beq_iff_eq] at first
    rcases first with (rfl | rfl | rfl) | rfl
    · exact ⟨"\n" ++ text, Utf8.encode_append ..⟩
    · exact ⟨" " ++ text, Utf8.encode_append ..⟩
    · exact ⟨"\t" ++ text, Utf8.encode_append ..⟩
    · exact ⟨";" ++ text, Utf8.encode_append ..⟩

end Scan

/-! ### The first chunk -/

namespace Remainder

open Scan

/-- What stands behind the first terminator. -/
def afterOpening (fixture : Bytes) : Remainder :=
  ⟨statementEnd fixture, fixture.drop (statementEnd fixture).index⟩

theorem opening_append (fixture : Bytes) :
    opening fixture ++ (afterOpening fixture).bytes = fixture :=
  List.take_append_drop ..

theorem chunks_of_blank_opening {fixture : Bytes} (blank : afterBlanks (opening fixture) = []) :
    ((whole fixture).cutting statementEnd).chunks =
      ((afterOpening fixture).cutting statementEnd).chunks := by
  let opened : Remainder := ⟨.start, opening fixture⟩
  have divided : whole fixture = opened.followedBy (afterOpening fixture).bytes := by
    rw [followedBy, opening_append, whole]
  have reached : opened.last = statementEnd fixture := by
    rw [last, Position.start_add]
    exact (statementEnd_eq_ofBytes fixture).symm
  have nothing : opened.skipBlank.bytes = [] := blank
  rw [← cutting_skipBlank, divided, skipBlank_followedBy_of_blank _ nothing, cutting_skipBlank,
    reached]
  rfl

theorem chunks_of_inked_opening {fixture : Bytes} (inked : afterBlanks (opening fixture) ≠ []) :
    ((whole fixture).cutting statementEnd).chunks =
      ⟨Position.ofBytes (blanks (opening fixture)), statementEnd fixture,
          afterBlanks (opening fixture)⟩ ::
        ((afterOpening fixture).cutting statementEnd).chunks := by
  obtain ⟨skipped, left⟩ := blanks_append_of_ne_nil inked (afterOpening fixture).bytes
  rw [opening_append] at skipped left
  obtain ⟨mark, index⟩ := statementEnd_afterBlanks skipped
  have trimmed : (whole fixture).skipBlank =
      ⟨Position.ofBytes (blanks (opening fixture)), afterBlanks fixture⟩ := by
    rw [← skipped]
    exact congrArg (Remainder.mk · _) (Position.start_add _)
  have something : (whole fixture).skipBlank.bytes ≠ [] := by
    rw [trimmed, left]
    exact List.append_ne_nil_of_left_ne_nil inked _
  refine congrArg Cutting.chunks (cutting_of_cut something (cut?_eq_some_iff.mpr ?_))
  rw [trimmed]
  refine ⟨?_, rfl, ?_, ?_, rfl, ?_⟩
  · rw [index]
    exact mt List.eq_nil_of_length_eq_zero inked
  · rw [index, left, List.take_left]
  · rw [← index]
    exact mark
  · rw [index, left, List.drop_left]

end Remainder

/-! ### The comment becomes part of it -/

namespace Scan

/-- A fixture below a block comment. -/
def commented (body fixture : Bytes) : Bytes := blockComment body ++ newline :: fixture

theorem commented_eq_append (body fixture : Bytes) :
    commented body fixture = (blockComment body ++ [newline]) ++ fixture := by
  rw [List.append_assoc]
  rfl

variable {body : Bytes} (fixture : Bytes)

theorem statementEnd_commented (unbroken : Unbroken body) :
    statementEnd (commented body fixture) =
      Position.ofBytes (blockComment body ++ [newline]) + statementEnd fixture := by
  have whole : Unbroken (blockComment body ++ [newline]) :=
    unbroken_blockComment unbroken (by decide)
  have settled : endsLine (newline :: fixture) = breaksLine [newline] := rfl
  have within := length_lt_statementEnd whole (by decide) settled
  rw [commented_eq_append]
  refine statementEnd_append_of_le ?_
  rw [List.length_append, ← commented_eq_append]
  exact within

theorem opening_commented (unbroken : Unbroken body) :
    opening (commented body fixture) = commented body (opening fixture) := by
  rw [opening, statementEnd_commented fixture unbroken, commented_eq_append, commented_eq_append]
  exact List.take_length_add_append _

end Scan

namespace Remainder

open Scan

variable {body : Bytes} (fixture : Bytes)

theorem afterOpening_commented (unbroken : Unbroken body) :
    afterOpening (commented body fixture) =
      (afterOpening fixture).behind (Position.ofBytes (blockComment body ++ [newline])) := by
  rw [afterOpening, statementEnd_commented fixture unbroken, commented_eq_append]
  exact congrArg (Remainder.mk _) (List.drop_length_add_append _)

/-- The first chunk has the comment, all others stand further behind. -/
theorem chunks_commented (unbroken : Unbroken body) :
    ((whole (commented body fixture)).cutting statementEnd).chunks =
      ⟨.start, statementEnd (commented body fixture), commented body (opening fixture)⟩ ::
        ((afterOpening fixture).cutting statementEnd).chunks.map
          (Chunk.behind (Position.ofBytes (blockComment body ++ [newline]))) := by
  have solid : afterBlanks (opening (commented body fixture)) =
      commented body (opening fixture) := by
    rw [opening_commented fixture unbroken]
    refine afterBlanks_eq_self fun first rest same => ?_
    obtain ⟨rfl, _⟩ := List.cons.inj same
    rfl
  have nothing : blanks (opening (commented body fixture)) = [] := by
    have whole := blanks_append_afterBlanks (opening (commented body fixture))
    rw [solid, ← opening_commented fixture unbroken] at whole
    exact List.append_left_eq_self.mp whole
  have inked : afterBlanks (opening (commented body fixture)) ≠ [] := by
    rw [solid]
    exact List.cons_ne_nil _ _
  rw [chunks_of_inked_opening inked, afterOpening_commented fixture unbroken, cutting_behind,
    nothing, solid]
  rfl

end Remainder

/-! ### Reading it -/

/-- The action of a text with more in front. -/
def Action.carry (front : String) : Action → Action
  | .exec sql => .exec (front ++ sql)
  | action => action

/-- The meaning of a text with more in front. -/
def Meaning.carry (front : String) : Meaning → Meaning
  | .plain sql => .plain (front ++ sql)
  | meaning => meaning

theorem Meaning.effect?_carry (front : String) {context : Context} {meaning : Meaning}
    {effect : Context × Option Action} (allowed : meaning.effect? context = some effect) :
    (meaning.carry front).effect? context =
      some (effect.1, effect.2.map (Action.carry front)) := by
  cases meaning with
  | comment | exception query substring | plain sql =>
    cases allowed
    rfl
  | definition key query =>
    obtain ⟨next, defined, rfl⟩ := Option.map_eq_some_iff.mp allowed
    show (definition key query).effect? context = _
    rw [effect?, defined]
    rfl
  | assertion key expected =>
    obtain ⟨query, bound, rfl⟩ := Option.map_eq_some_iff.mp allowed
    show (assertion key expected).effect? context = _
    rw [effect?, bound]
    rfl

namespace Means

variable {text : String} {probe : Bytes} {meaning : Meaning}

theorem carry (means : Means text probe meaning) (front : String) :
    Means (front ++ text) probe (meaning.carry front) := by
  cases means with
  | comment nothing => exact .comment nothing
  | definition whole inLine trimmed someKey someQuery word =>
    exact .definition whole inLine trimmed someKey someQuery word
  | assertion whole trimmed inWord someRows => exact .assertion whole trimmed inWord someRows
  | exception whole inLine someText someQuery => exact .exception whole inLine someText someQuery
  | plain something free => exact .plain something free

theorem eq_plain (means : Means text probe meaning) (something : probe ≠ [])
    (free : ∀ keyword ∈ keywords, ¬asciiBytes keyword <+: probe) : meaning = .plain text := by
  cases means with
  | comment nothing => exact absurd nothing something
  | definition whole => exact absurd ⟨_, whole.symm⟩ (free "define " (.head _))
  | assertion whole => exact absurd ⟨_, whole.symm⟩ (free "assert " (.tail _ (.head _)))
  | exception whole => exact absurd ⟨_, whole.symm⟩ (free "except " (.tail _ (.tail _ (.head _))))
  | plain => rfl

end Means

namespace Progress

variable {progress next : Progress}

/-- A chunk with more in front adds the same but for what it carries, if the interpreters see no
more of it, or if both texts are plain. -/
theorem take_carrying {chunk carrying : Chunk} {front : String}
    (source : carrying.source = Utf8.encode front ++ chunk.source)
    (alike : carrying.probe = chunk.probe ∨
      Scan.IsPlain chunk.source ∧ Scan.IsPlain carrying.source)
    (taken : progress.take standard chunk = .ok next) :
    ∃ effect : Context × Option Action, next = progress.adopt chunk effect ∧
      progress.take standard carrying =
        .ok (progress.adopt carrying (effect.1, effect.2.map (Action.carry front))) := by
  obtain ⟨text, meaning, effect, encoded, means, allowed, rfl⟩ := take_eq_ok_iff_means.mp taken
  have carries : Means (front ++ text) carrying.probe (meaning.carry front) := by
    rcases alike with same | ⟨⟨something, free⟩, ⟨still, freeStill⟩⟩
    · rw [same]
      exact means.carry front
    · obtain rfl := means.eq_plain something free
      exact .plain still freeStill
  have whole : carrying.source = Utf8.encode (front ++ text) := by
    rw [source, encoded, Utf8.encode_append]
  exact ⟨effect, rfl, take_eq_ok_iff_means.mpr
    ⟨_, _, _, whole, carries, Meaning.effect?_carry front allowed, rfl⟩⟩

end Progress

/-- The same statements apart from their positions, or the first one has more in front. -/
def Statement.MayCarry (front : String) (statements carrying : List Statement) : Prop :=
  carrying.map content = statements.map content ∨
    ∃ first later, statements.map content = first :: later ∧
      carrying.map content =
        (Utf8.encode front ++ first.1, first.2.carry front) :: later

/-- What is carried does not change the kind of an action. -/
theorem Statement.MayCarry.kinds {front : String} {statements carrying : List Statement}
    (carries : MayCarry front statements carrying) :
    carrying.map (fun statement => statement.action.kind) =
      statements.map (fun statement => statement.action.kind) := by
  have told (listed : List Statement) :
      listed.map (fun statement => statement.action.kind) =
        (listed.map content).map fun parts => parts.2.kind := by
    rw [List.map_map]
    rfl
  rw [told, told]
  rcases carries with same | ⟨⟨source, action⟩, later, before, behind⟩
  · rw [same]
  · rw [before, behind]
    cases action <;> rfl

theorem Statement.map_content_behind (offset : Position) (statements : List Statement) :
    (statements.map (Statement.behind offset)).map content = statements.map content := by
  rw [List.map_map]
  rfl

namespace Progress

open Scan

variable {fixture : Bytes} {body : String} {next : Progress}

/-- The same context before the chunks leads to the same context behind them. -/
theorem takeAll_behind_alike {alone joined : Progress} (alike : joined.context = alone.context)
    (offset : Position) {chunks : List Chunk} (taken : alone.takeAll standard chunks = .ok next) :
    ∃ added : List Statement, next.recorded = added ++ alone.recorded ∧
      joined.takeAll standard (chunks.map (Chunk.behind offset)) =
        .ok ⟨next.context, added.map (Statement.behind offset) ++ joined.recorded⟩ := by
  have union : joined.context.IsUnion .empty alone.context := by
    rw [alike]
    exact .refl _
  have apart : Dictionary.empty.Apart next.context := nofun
  obtain ⟨added, context, recorded, takenBehind, same⟩ :=
    takeAll_behind offset union apart taken
  rw [Dictionary.eq_of_perm same] at takenBehind
  exact ⟨added, recorded, takenBehind⟩

/-- A comment and the blanks below it are text. -/
theorem exists_front (body : String) (bytes : Bytes) :
    ∃ front : String, Utf8.encode front = commented (Utf8.encode body) (blanks bytes) := by
  have blank : ∀ byte ∈ blanks bytes, isBlank byte = true := fun _ => isBlank_of_mem_blanks
  obtain ⟨gap, encoded⟩ := exists_encode_of_blank blank
  refine ⟨"/*" ++ body ++ "*/\n" ++ gap, ?_⟩
  have opens : Utf8.encode "/*" = [slash, star] := by decide
  have closes : Utf8.encode "*/\n" = [star, slash, newline] := by decide
  rw [Utf8.encode_append, Utf8.encode_append, Utf8.encode_append, encoded, opens, closes,
    commented, blockComment]
  simp only [List.append_assoc, List.cons_append, List.nil_append]

/-- **The chunks below a comment** come to the same, but for what the first one carries. -/
theorem takeAll_commented (takes : TakesComment fixture)
    (unclosed : ¬[star, slash] <:+: Utf8.encode body) (unbroken : Unbroken (Utf8.encode body))
    (taken : start.takeAll standard ((Remainder.whole fixture).cutting statementEnd).chunks =
      .ok next) :
    ∃ (again : Progress) (front : String),
      start.takeAll standard ((Remainder.whole (commented (Utf8.encode body) fixture)).cutting
        statementEnd).chunks = .ok again ∧
      again.context = next.context ∧
      Utf8.encode front = commented (Utf8.encode body) (blanks (opening fixture)) ∧
      Statement.MayCarry front next.recorded.reverse again.recorded.reverse := by
  let line := Position.ofBytes (blockComment (Utf8.encode body) ++ [newline])
  let carrying : Chunk := ⟨.start, statementEnd (commented (Utf8.encode body) fixture),
    commented (Utf8.encode body) (opening fixture)⟩
  obtain ⟨front, encoded⟩ := exists_front body (opening fixture)
  have probe : carrying.probe = afterComments (opening fixture) :=
    (afterComments_blockComment unclosed _).trans (afterComments_newline _)
  have source : carrying.source = Utf8.encode front ++ afterBlanks (opening fixture) := by
    rw [encoded, commented_eq_append, List.append_assoc, blanks_append_afterBlanks,
      ← commented_eq_append]
  rw [Remainder.chunks_commented fixture unbroken, takeAll]
  by_cases nothing : afterBlanks (opening fixture) = []
  · -- Only newlines stand before the first terminator, so that the comment is a chunk of its own.
    have newlines : ∀ byte ∈ blanks (opening fixture), byte = newline :=
      takes.resolve_right fun plain => plain.1 (by rw [nothing]; rfl)
    have comment : carrying.probe = [] := by
      have skipped := afterComments_newlines newlines []
      rwa [List.append_nil, blanks_of_afterBlanks_eq_nil nothing, ← probe] at skipped
    have ignored : start.take standard carrying = .ok start :=
      take_eq_ok_iff_means.mpr ⟨front, .comment, (start.context, none),
        by rw [source, nothing, List.append_nil], .comment comment, rfl, rfl⟩
    rw [Remainder.chunks_of_blank_opening nothing] at taken
    obtain ⟨added, recorded, takenBehind⟩ := takeAll_behind_alike rfl line taken
    rw [ignored]
    refine ⟨_, front, takenBehind, rfl, encoded, .inl ?_⟩
    rw [recorded, List.reverse_append, List.reverse_append, ← List.map_reverse, List.map_append,
      Statement.map_content_behind, List.map_append]
  · -- The comment is carried by the first chunk.
    let chunk : Chunk := ⟨Position.ofBytes (blanks (opening fixture)), statementEnd fixture,
      afterBlanks (opening fixture)⟩
    have divided : afterComments (opening fixture) =
        afterComments (blanks (opening fixture) ++ chunk.source) := by
      rw [blanks_append_afterBlanks]
    have alike : carrying.probe = chunk.probe ∨
        IsPlain chunk.source ∧ IsPlain carrying.source := by
      by_cases newlines : ∀ byte ∈ blanks (opening fixture), byte = newline
      · left
        rw [probe, divided, afterComments_newlines newlines]
        rfl
      · have plain := isPlain_blanks (fun _ => isBlank_of_mem_blanks) newlines chunk.source
        unfold IsPlain at plain
        rw [← divided, ← probe] at plain
        exact .inr ⟨takes.resolve_left newlines, plain⟩
    rw [Remainder.chunks_of_inked_opening nothing, takeAll] at taken
    cases here : start.take standard chunk with
    | error cause => rw [here] at taken; cases taken
    | ok between =>
      rw [here] at taken
      obtain ⟨⟨context, action⟩, rfl, carried⟩ := take_carrying source alike here
      let reached := start.adopt carrying (context, action.map (Action.carry front))
      have same : reached.context = (start.adopt chunk (context, action)).context := rfl
      obtain ⟨added, recorded, takenBehind⟩ := takeAll_behind_alike same line taken
      rw [carried]
      refine ⟨_, front, takenBehind, rfl, encoded, ?_⟩
      rw [recorded, List.reverse_append, List.reverse_append, ← List.map_reverse]
      cases action with
      | none => exact .inl (Statement.map_content_behind line added.reverse)
      | some action =>
        refine .inr ⟨(chunk.source, action), added.reverse.map Statement.content, rfl, ?_⟩
        show (carrying.source, action.carry front) ::
          (added.reverse.map (Statement.behind line)).map Statement.content = _
        rw [source, Statement.map_content_behind]

end Progress
/-! ### A whole test -/

namespace Test

open Scan

theorem length_chunks_commented {body : Bytes} (fixture : Bytes) (unbroken : Unbroken body) :
    ((Remainder.whole (commented body fixture)).cutting statementEnd).chunks.length ≤
      ((Remainder.whole fixture).cutting statementEnd).chunks.length + 1 := by
  rw [Remainder.chunks_commented fixture unbroken, List.length_cons, List.length_map]
  by_cases nothing : afterBlanks (opening fixture) = []
  · have same := congrArg List.length (Remainder.chunks_of_blank_opening nothing)
    exact Nat.succ_le_succ (Nat.le_of_eq same.symm)
  · rw [Remainder.chunks_of_inked_opening nothing]
    exact Nat.le_succ _

/-- **A comment in front changes no test.** Let a fixture build, with the usual delimiter and the
usual chain, and let it begin with no blanks but newlines, or with plain SQL behind its blanks. Put
above it a block comment that ends no line with a semicolon. Then a limit that is higher by one is
not reached; and if the limit is not reached, the fixture builds, binds the same queries, and has
the same statements, except that the first one may carry the comment and the blanks in front. -/
theorem build_behind_comment {limit : Nat} {name : String} {fixture : Bytes} {test : Test}
    (built : build { limit := limit } name fixture = .ok test) (takes : TakesComment fixture)
    {body : String} (unclosed : ¬[star, slash] <:+: Utf8.encode body)
    (unbroken : Unbroken (Utf8.encode body)) (called : String) (larger : Nat) :
    (limit < larger →
      ¬ReachesLimit { limit := larger } called (commented (Utf8.encode body) fixture)) ∧
    (¬ReachesLimit { limit := larger } called (commented (Utf8.encode body) fixture) →
      ∃ (again : Test) (front : String),
        build { limit := larger } called (commented (Utf8.encode body) fixture) = .ok again ∧
        again.context = test.context ∧
        again.statements.map (fun statement => statement.action.kind) =
          test.statements.map (fun statement => statement.action.kind) ∧
        Utf8.encode front = commented (Utf8.encode body) (blanks (opening fixture)) ∧
        Statement.MayCarry front test.statements again.statements) := by
  obtain ⟨few, _, taken, something, _⟩ := build_eq_ok_iff.mp built
  constructor
  · intro higher reached
    have size := length_chunks_commented fixture unbroken
    refine (build_eq_iterationLimit_iff.mp reached).2 (limitPlace?_eq_none_iff.mpr ⟨?_, ?_⟩)
    · exact Nat.le_trans size (Nat.le_trans (Nat.succ_le_succ few) higher)
    · exact Remainder.stall_whole _
  · intro unreached
    obtain ⟨again, front, takenAgain, same, encoded, carries⟩ :=
      Progress.takeAll_commented takes unclosed unbroken taken
    rw [List.reverse_reverse] at carries
    have acting : again.recorded ≠ [] := by
      intro nothing
      have kinds := carries.kinds
      rw [nothing] at kinds
      exact something (List.map_eq_nil_iff.mp kinds.symm)
    exact ⟨_, front, build_of_takeAll_of_unreached _ called (Remainder.stall_whole _) takenAgain
      acting unreached, same, carries.kinds, encoded, carries⟩

/-- Two spaces below a comment, which plain SQL carries with it. -/
theorem build_behind_comment_of_spaces :
    let fixture := asciiBytes "  SELECT 1;\ndefine a\nSELECT 2;\nassert a 2"
    let body := "; DROP TABLE t; --\n"
    ∃ test again front, build { limit := 3 } "t" fixture = .ok test ∧
      build { limit := 3 } "u" (commented (Utf8.encode body) fixture) = .ok again ∧
      again.context = test.context ∧
      again.statements.map (fun statement => statement.action.kind) = ["exec", "assert"] ∧
      Utf8.encode front = asciiBytes "/*; DROP TABLE t; --\n*/\n  " ∧
      Statement.MayCarry front test.statements again.statements := by
  intro fixture body
  have told : (build { limit := 3 } "t" fixture).toOption.map
      (fun test => test.statements.map fun statement => statement.action.kind) =
      some ["exec", "assert"] := by decide +kernel
  have toldBelow : (build { limit := 3 } "u"
      (commented (Utf8.encode body) fixture)).toOption.isSome := by decide +kernel
  have takes : TakesComment fixture := by
    refine .inr ?_
    unfold IsPlain
    decide +kernel
  have unclosed : ¬[star, slash] <:+: Utf8.encode body := by decide +kernel
  have unbroken : Unbroken (Utf8.encode body) := by decide +kernel
  have unreached : ¬ReachesLimit { limit := 3 } "u" (commented (Utf8.encode body) fixture) := by
    rintro ⟨_, _, _, failed⟩
    rw [failed] at toldBelow
    cases toldBelow
  obtain ⟨test, built, kinds⟩ := exists_of_toOption told
  obtain ⟨again, front, builtBelow, same, alike, encoded, carries⟩ :=
    (build_behind_comment built takes unclosed unbroken "u" 3).2 unreached
  refine ⟨test, again, front, built, builtBelow, same, alike.trans kinds, encoded.trans ?_,
    carries⟩
  decide +kernel

/-- **Other comments do change tests.** Where a space stands below the comment, a definition is not
found and its key is not bound. And where the comment ends a line with a semicolon, the SQL in it
is executed. -/
theorem comment_not_inert :
    (let fixture := asciiBytes " define K\nSELECT 1;\nassert K 1"
      let body := " c "
      ¬[star, slash] <:+: Utf8.encode body ∧
      (∃ test, build { limit := 2 } "t" fixture = .ok test) ∧
      ∀ limit again,
        build { limit := limit } "t" (commented (Utf8.encode body) fixture) ≠ .ok again) ∧
    (let fixture := asciiBytes "SELECT 1"
      let body := ";\nDROP TABLE t;\n"
      ¬[star, slash] <:+: Utf8.encode body ∧
      (∃ test, build { limit := 1 } "t" fixture = .ok test ∧
        test.statements.map Statement.action = [.exec "SELECT 1"]) ∧
      ∃ again, build { limit := 3 } "t" (commented (Utf8.encode body) fixture) = .ok again ∧
        again.statements.map Statement.action =
          [.exec "DROP TABLE t", .exec "*/\nSELECT 1"]) := by
  constructor
  · intro fixture body
    have told : (build { limit := 2 } "t" fixture).toOption.map Test.name = some "t" := by
      decide +kernel
    obtain ⟨test, built, _⟩ := exists_of_toOption told
    refine ⟨by decide +kernel, ⟨test, built⟩, fun limit again built => ?_⟩
    obtain ⟨_, _, taken, _⟩ := build_eq_ok_iff.mp built
    have refused : (Progress.start.takeAll standard
        ((Remainder.whole (commented (Utf8.encode body) fixture)).cutting
          statementEnd).chunks).toOption.isNone := by decide +kernel
    rw [taken] at refused
    cases refused
  · intro fixture body
    have told : (build { limit := 1 } "t" fixture).toOption.map
        (fun test => test.statements.map Statement.action) = some [.exec "SELECT 1"] := by
      decide +kernel
    have toldBelow : (build { limit := 3 } "t"
        (commented (Utf8.encode body) fixture)).toOption.map
        (fun test => test.statements.map Statement.action) =
        some [.exec "DROP TABLE t", .exec "*/\nSELECT 1"] := by
      decide +kernel
    exact ⟨by decide +kernel, exists_of_toOption told, exists_of_toOption toldBelow⟩

end Test

end SqlFixture
