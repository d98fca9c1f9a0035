import SqlFixture.Proofs.LeadingComment
import SqlFixture.Proofs.Validity

/-
**Fixtures without code.**

A fixture may consist of blanks and complete comments alone. Between statements all blanks are
skipped, but the chunk that begins with a comment goes on to the next semicolon that ends a line,
and behind the comments in it only newlines are skipped. So such a fixture is empty exactly if
nothing else stands there; any other blank is left over as plain SQL.

* `Filler`: blanks and complete comments, `Filler.joined` the fixture that they make up;
* `Filler.Tidy`: behind a comment stand newlines and comments, up to the end of the chunk;
* `Filler.CutsTo`, `Filler.exists_cutsTo`: one cut, where the fillers carry the induction;
* `Remainder.probes_of_fillers`: all cuts;
* `Statement.IsLeftOver`: a comment with a blank behind it, run as plain SQL;
* `Filler.leftOver`, `Filler.takeAll_chunks`: the statements that the chunks become;
* `Test.build_fillers`: the outcome of a build;
* `Test.codeless_recorded`: two fixtures that are not empty.
-/

namespace SqlFixture

open Directive Scan

/-- What a fixture without code consists of. -/
inductive Filler where
  /-- A newline, a space, a tab or a semicolon. -/
  | blank (byte : UInt8) (isBlank : Scan.isBlank byte = true)
  /-- A line comment, up to and including the newline. -/
  | lineComment (body : String) (inLine : newline ∉ Utf8.encode body)
  /-- A block comment, up to the first `*/`. -/
  | blockComment (body : String) (unclosed : ¬[star, slash] <:+: Utf8.encode body)

namespace Filler

/-- The bytes of a filler. -/
def bytes : Filler → Bytes
  | blank byte _ => [byte]
  | lineComment body _ => dash :: dash :: (Utf8.encode body ++ [newline])
  | blockComment body _ => Scan.blockComment (Utf8.encode body)

/-- The fixture that fillers make up. -/
def joined (fillers : List Filler) : Bytes := fillers.flatMap bytes

/-- Whether no semicolon ends a line inside, where the delimiter would not know of the comment. -/
def IsWhole : Filler → Prop
  | blockComment body _ => Unbroken (Utf8.encode body)
  | _ => True

/-- Whether a filler is skipped behind a comment. -/
def IsSkipped : Filler → Prop
  | blank byte _ => byte = newline
  | _ => True

/-- Whether fillers come to nothing, between statements or behind a comment. Between statements all
blanks are skipped. Behind a comment only newlines and comments are, until a semicolon ends the
line, be it bare or at the end of a line comment. -/
def Tidy : (behindComment : Bool) → List Filler → Prop
  | _, [] => True
  | false, blank _ _ :: later => Tidy false later
  | true, blank byte _ :: later =>
    byte = newline ∧ Tidy true later ∨
      byte = semicolon ∧ endsLine (joined later) = true ∧ Tidy false later
  | _, lineComment body _ :: later => Tidy (terminator? (Utf8.encode body)).isNone later
  | _, blockComment _ _ :: later => Tidy true later

instance decidableIsWhole : (filler : Filler) → Decidable filler.IsWhole
  | blank _ _ => isTrue trivial
  | lineComment _ _ => isTrue trivial
  | blockComment body _ => inferInstanceAs (Decidable (Unbroken (Utf8.encode body)))

instance decidableTidy :
    (behindComment : Bool) → (fillers : List Filler) → Decidable (Tidy behindComment fillers)
  | false, [] => isTrue trivial
  | true, [] => isTrue trivial
  | false, blank _ _ :: later => decidableTidy false later
  | true, blank byte _ :: later =>
    have := decidableTidy true later
    have := decidableTidy false later
    inferInstanceAs (Decidable (byte = newline ∧ Tidy true later ∨
      byte = semicolon ∧ endsLine (joined later) = true ∧ Tidy false later))
  | false, lineComment body _ :: later =>
    decidableTidy (terminator? (Utf8.encode body)).isNone later
  | true, lineComment body _ :: later =>
    decidableTidy (terminator? (Utf8.encode body)).isNone later
  | false, blockComment _ _ :: later => decidableTidy true later
  | true, blockComment _ _ :: later => decidableTidy true later

theorem joined_cons (filler : Filler) (later : List Filler) :
    joined (filler :: later) = filler.bytes ++ joined later := List.flatMap_cons

theorem joined_append (first second : List Filler) :
    joined (first ++ second) = joined first ++ joined second := List.flatMap_append

theorem bytes_ne_nil (filler : Filler) : filler.bytes ≠ [] := by
  cases filler <;> exact List.cons_ne_nil _ _

theorem isText_bytes (filler : Filler) : Utf8.IsText filler.bytes := by
  cases filler with
  | blank byte isBlank =>
    refine Utf8.isText_of_low fun other member => ?_
    rw [List.mem_singleton.mp member]
    exact low_of_isBlank isBlank
  | lineComment body inLine =>
    have opens : Utf8.encode "--" = [dash, dash] := by decide
    have ends : Utf8.encode "\n" = [newline] := by decide
    refine ⟨"--" ++ body ++ "\n", ?_⟩
    rw [Utf8.encode_append, Utf8.encode_append, opens, ends, List.append_assoc]
    rfl
  | blockComment body unclosed =>
    have opens : Utf8.encode "/*" = [slash, star] := by decide
    have closes : Utf8.encode "*/" = [star, slash] := by decide
    refine ⟨"/*" ++ body ++ "*/", ?_⟩
    rw [Utf8.encode_append, Utf8.encode_append, opens, closes, List.append_assoc]
    rfl

theorem isText_joined (fillers : List Filler) : Utf8.IsText (joined fillers) := by
  induction fillers with
  | nil => exact Utf8.isText_nil
  | cons filler later ih =>
    rw [joined_cons]
    exact filler.isText_bytes.append ih

/-! ### Between statements -/

/-- Blanks are fillers, and between statements they are skipped. -/
theorem exists_of_blank {before : Bytes} (blank : ∀ byte ∈ before, isBlank byte = true) :
    ∃ fillers : List Filler, joined fillers = before ∧ (∀ filler ∈ fillers, filler.IsWhole) ∧
      ∀ later, Tidy false (fillers ++ later) ↔ Tidy false later := by
  induction before with
  | nil => exact ⟨[], rfl, nofun, fun _ => .rfl⟩
  | cons byte before ih =>
    obtain ⟨fillers, rfl, whole, same⟩ := ih fun other member => blank other (.tail _ member)
    refine ⟨.blank byte (blank byte List.mem_cons_self) :: fillers, rfl, fun filler member => ?_,
      same⟩
    rcases List.mem_cons.mp member with rfl | member
    · exact trivial
    · exact whole filler member

/-- Behind the blanks a comment begins, or nothing is left. -/
theorem exists_afterBlanks (fillers : List Filler) :
    ∃ later, later <:+ fillers ∧ afterBlanks (joined fillers) = joined later ∧
      (Tidy false fillers ↔ Tidy true later) := by
  induction fillers with
  | nil => exact ⟨[], List.suffix_refl _, rfl, .rfl⟩
  | cons filler fillers ih =>
    cases filler with
    | blank byte isBlank =>
      obtain ⟨later, suffix, left, same⟩ := ih
      refine ⟨later, suffix.trans (List.suffix_cons ..), ?_, same⟩
      rw [joined_cons, afterBlanks_append fun other member => ?_, left]
      rw [List.mem_singleton.mp member]
      exact isBlank
    | lineComment body inLine => exact ⟨_, List.suffix_refl _, rfl, .rfl⟩
    | blockComment body unclosed => exact ⟨_, List.suffix_refl _, rfl, .rfl⟩

end Filler

/-! ### Comments -/

namespace Scan

/-- Whether what is left of a text behind its comments is nothing, or begins with a blank. -/
def LeavesBlank (text : Bytes) : Prop :=
  afterComments text = [] ∨ ∃ first rest, afterComments text = first :: rest ∧ isBlank first = true

theorem exists_of_terminator? {line : Bytes} {index : Nat} (found : terminator? line = some index) :
    ∃ padding, line.drop index = semicolon :: padding ∧ padding.all isPadding = true := by
  induction line generalizing index with
  | nil => cases found
  | cons byte line ih =>
    rw [terminator?_cons] at found
    split at found
    next ends =>
      cases found
      exact ⟨line, congrArg (· :: line) ends.1, ends.2⟩
    next goesOn =>
      obtain ⟨before, inside, rfl⟩ := Option.map_eq_some_iff.mp found
      exact ih inside

theorem terminator?_dashes (body : Bytes) :
    terminator? (dash :: dash :: body) = (terminator? body).map (· + 2) := by
  have other : dash ≠ semicolon := by decide
  rw [terminator?_cons, if_neg fun ends => other ends.1, terminator?_cons,
    if_neg fun ends => other ends.1, Option.map_map]
  rfl

theorem statementEnd_line {line : Bytes} (inLine : newline ∉ line) (rest : Bytes) :
    statementEnd (line ++ newline :: rest) =
      match terminator? line with
      | some index => ⟨0, index⟩
      | none => ⟨1, line.length + 1⟩ + statementEnd rest := by
  rw [statementEnd, statementEndFrom_line .start rest inLine]
  cases terminator? line with
  | none => exact (statementEndFrom_eq _ rest).trans (by rw [Position.start_add])
  | some index => exact Position.start_add _

/-- What stands in a stretch without a terminator belongs to the opening. -/
theorem opening_append_of_le {before rest : Bytes}
    (within : before.length ≤ (statementEnd (before ++ rest)).index) :
    opening (before ++ rest) = before ++ opening rest ∧
      (before ++ rest).drop (statementEnd (before ++ rest)).index =
        rest.drop (statementEnd rest).index := by
  rw [opening, statementEnd_append_of_le within]
  exact ⟨List.take_length_add_append _, List.drop_length_add_append _⟩

end Scan

/-! ### One cut -/

namespace Filler

theorem isCommentPiece {filler : Filler} (skipped : filler.IsSkipped) :
    IsCommentPiece filler.bytes := by
  cases filler with
  | blank byte isBlank =>
    obtain rfl : byte = newline := skipped
    exact .newline
  | lineComment body inLine => exact .lineComment inLine
  | blockComment body unclosed => exact .blockComment unclosed

theorem afterComments_bytes {filler : Filler} (skipped : filler.IsSkipped) (rest : Bytes) :
    afterComments (filler.bytes ++ rest) = afterComments rest :=
  afterComments_piece (isCommentPiece skipped) rest

/-- What one cut behind comments comes to. It leaves `later`, and nothing or a blank is left behind
the comments of what it cuts off. The fillers are tidy exactly if nothing is, and if those that are
left are tidy between statements. -/
structure CutsTo (fillers later : List Filler) : Prop where
  whole : ∀ filler ∈ later, filler.IsWhole
  left : (joined fillers).drop (statementEnd (joined fillers)).index = joined later
  leaves : LeavesBlank (opening (joined fillers))
  tidy : Tidy true fillers ↔ afterComments (opening (joined fillers)) = [] ∧ Tidy false later

variable {fillers later : List Filler}

/-- A filler that is skipped and holds no terminator. -/
theorem CutsTo.skip (cuts : CutsTo fillers later) {filler : Filler} (skipped : filler.IsSkipped)
    (within : filler.bytes.length ≤ (statementEnd (filler.bytes ++ joined fillers)).index)
    (tidy : Tidy true (filler :: fillers) ↔ Tidy true fillers) :
    CutsTo (filler :: fillers) later := by
  obtain ⟨opens, rest⟩ := opening_append_of_le within
  refine ⟨cuts.whole, ?_, ?_, ?_⟩
  · rw [joined_cons, rest]
    exact cuts.left
  · have leaves := cuts.leaves
    unfold LeavesBlank at leaves ⊢
    rwa [joined_cons, opens, afterComments_bytes skipped]
  · rw [tidy, cuts.tidy, joined_cons, opens, afterComments_bytes skipped]

/-- Nothing but comments is cut off. -/
theorem cutsTo_of_nil (whole : ∀ filler ∈ later, filler.IsWhole)
    (left : (joined fillers).drop (statementEnd (joined fillers)).index = joined later)
    (nothing : afterComments (opening (joined fillers)) = [])
    (tidy : Tidy true fillers ↔ Tidy false later) : CutsTo fillers later :=
  ⟨whole, left, .inl nothing, tidy.trans ⟨fun tidy => ⟨nothing, tidy⟩, And.right⟩⟩

theorem cutsTo_nil : CutsTo [] [] := by
  have nothing : opening (joined []) = [] := List.take_nil
  refine cutsTo_of_nil nofun List.drop_nil ?_ .rfl
  rw [nothing]
  rfl

/-- A blank ends the chunk, is skipped, or is left over. -/
theorem CutsTo.blank (cuts : CutsTo fillers later) (whole : ∀ filler ∈ fillers, filler.IsWhole)
    (byte : UInt8) (isBlank : Scan.isBlank byte = true) :
    ∃ later, CutsTo (.blank byte isBlank :: fillers) later := by
  have spelled : joined (.blank byte isBlank :: fillers) = byte :: joined fillers := rfl
  by_cases ends : byte = semicolon ∧ endsLine (joined fillers) = true
  · have mark : statementEnd (joined (.blank byte isBlank :: fillers)) = .start := by
      rw [spelled, statementEnd_cons, if_pos ends]
    refine ⟨.blank byte isBlank :: fillers, cutsTo_of_nil ?_ ?_ ?_ ?_⟩
    · exact List.forall_mem_cons.mpr ⟨trivial, whole⟩
    · rw [mark]
      rfl
    · rw [opening, mark]
      rfl
    · refine ⟨?_, fun tidy => .inr ⟨ends.1, ends.2, tidy⟩⟩
      rintro (⟨rfl, _⟩ | ⟨_, _, tidy⟩)
      · exact absurd ends.1 (by decide)
      · exact tidy
  · have within : 1 ≤ (statementEnd (byte :: joined fillers)).index := by
      rw [statementEnd_cons, if_neg ends]
      exact Nat.le_add_right 1 _
    by_cases skipped : byte = newline
    · subst skipped
      refine ⟨later, cuts.skip rfl within ⟨?_, fun tidy => .inl ⟨rfl, tidy⟩⟩⟩
      rintro (⟨_, tidy⟩ | ⟨other, _⟩)
      · exact tidy
      · cases other
    · have inside : [byte].length ≤ (statementEnd ([byte] ++ joined fillers)).index := within
      obtain ⟨opens, rest⟩ := opening_append_of_le inside
      have probe : afterComments (opening (joined (.blank byte isBlank :: fillers))) =
          byte :: opening (joined fillers) :=
        (congrArg afterComments opens).trans (afterComments_cons_of_isBlank isBlank skipped _)
      refine ⟨later, cuts.whole, rest.trans cuts.left, .inr ⟨byte, _, probe, isBlank⟩, ?_⟩
      rw [probe]
      refine ⟨?_, fun nothing => absurd nothing.1 (List.cons_ne_nil _ _)⟩
      rintro (⟨line, _⟩ | ⟨bare, ending, _⟩)
      · exact absurd line skipped
      · exact absurd ⟨bare, ending⟩ ends

/-- A line comment is skipped, and the chunk ends in it if a semicolon ends the line. -/
theorem CutsTo.lineComment (cuts : CutsTo fillers later)
    (whole : ∀ filler ∈ fillers, filler.IsWhole) (body : String)
    (inLine : newline ∉ Utf8.encode body) :
    ∃ later, CutsTo (.lineComment body inLine :: fillers) later := by
  have outside : newline ∉ dash :: dash :: Utf8.encode body := by
    rw [List.mem_cons, List.mem_cons, not_or, not_or]
    exact ⟨by decide, by decide, inLine⟩
  have spelled : joined (.lineComment body inLine :: fillers) =
      (dash :: dash :: Utf8.encode body) ++ newline :: joined fillers := by
    rw [joined_cons, bytes, List.cons_append, List.cons_append, List.append_assoc]
    rfl
  have mark := statementEnd_line outside (joined fillers)
  rw [← spelled, terminator?_dashes] at mark
  cases found : terminator? (Utf8.encode body) with
  | some index =>
    rw [found] at mark
    have place :
        (statementEnd (joined (.lineComment body inLine :: fillers))).index = index + 2 := by
      rw [mark]
      rfl
    obtain ⟨padding, rest, blank⟩ := exists_of_terminator? found
    have inside : index ≤ (Utf8.encode body).length := by
      have size := congrArg List.length rest
      rw [List.length_drop, List.length_cons] at size
      omega
    have blanks : ∀ byte ∈ semicolon :: (padding ++ [newline]), isBlank byte = true := by
      intro byte member
      rcases List.mem_cons.mp member with rfl | member
      · rfl
      rcases List.mem_append.mp member with padded | last
      · rw [isBlank, List.all_eq_true.mp blank byte padded, Bool.or_true, Bool.true_or]
      · rw [List.mem_singleton.mp last]
        rfl
    obtain ⟨skipped, encoded, wholeSkipped, same⟩ := exists_of_blank blanks
    refine ⟨skipped ++ fillers, cutsTo_of_nil ?_ ?_ ?_ ?_⟩
    · exact List.forall_mem_append.mpr ⟨wholeSkipped, whole⟩
    · rw [place, spelled, joined_append, encoded, List.cons_append, List.cons_append,
        List.drop_succ_cons, List.drop_succ_cons, List.drop_append_of_le_length inside, rest,
        List.cons_append, List.cons_append, List.append_assoc]
      rfl
    · rw [opening, place, spelled, List.cons_append, List.cons_append, List.take_succ_cons,
        List.take_succ_cons, List.take_append_of_le_length inside, afterComments_dashes]
      exact afterCommentsFrom_line_of_not_mem fun member => inLine (List.mem_of_mem_take member)
    · rw [same, Tidy, found]
      rfl
  | none =>
    rw [found] at mark
    have place : (statementEnd (joined (.lineComment body inLine :: fillers))).index =
        (Utf8.encode body).length + 3 + (statementEnd (joined fillers)).index := by
      rw [mark]
      rfl
    refine ⟨later, cuts.skip trivial ?_ ?_⟩
    · rw [← joined_cons, place, bytes, List.length_cons, List.length_cons, List.length_append]
      exact Nat.le_add_right _ _
    · rw [Tidy, found]
      rfl

/-- A block comment that holds no terminator is skipped. -/
theorem CutsTo.blockComment (cuts : CutsTo fillers later) (body : String)
    (unclosed : ¬[star, slash] <:+: Utf8.encode body) (unbroken : Unbroken (Utf8.encode body)) :
    CutsTo (.blockComment body unclosed :: fillers) later := by
  refine cuts.skip trivial ?_ .rfl
  have regrouped : Scan.blockComment (Utf8.encode body) =
      slash :: star :: (Utf8.encode body ++ [star]) ++ [slash] := by
    rw [Scan.blockComment, List.cons_append, List.cons_append, List.append_assoc]
    rfl
  have whole : Unbroken (Scan.blockComment (Utf8.encode body) ++ []) :=
    unbroken_blockComment unbroken trivial
  rw [List.append_nil, regrouped] at whole
  have settled : endsLine (slash :: joined fillers) = breaksLine [slash] := rfl
  have within := length_lt_statementEnd whole (by decide) settled
  rw [bytes, regrouped, List.length_append, List.append_assoc]
  exact within

/-- **Fillers are cut into fillers**, with a blank or nothing behind the comments in front. -/
theorem exists_cutsTo (fillers : List Filler) (whole : ∀ filler ∈ fillers, filler.IsWhole) :
    ∃ later, CutsTo fillers later := by
  induction fillers with
  | nil => exact ⟨[], cutsTo_nil⟩
  | cons filler fillers ih =>
    obtain ⟨first, others⟩ := List.forall_mem_cons.mp whole
    obtain ⟨later, cuts⟩ := ih others
    cases filler with
    | blank byte isBlank => exact cuts.blank others byte isBlank
    | lineComment body inLine => exact cuts.lineComment others body inLine
    | blockComment body unclosed => exact ⟨later, cuts.blockComment body unclosed first⟩

end Filler

/-! ### All cuts -/

/-- Behind the comments of its chunks, a fixture without code has blanks or nothing, and it has
nothing behind any of them exactly if it is tidy. -/
theorem Remainder.probes_of_fillers {remainder : Remainder} {fillers : List Filler}
    (bytes : remainder.bytes = Filler.joined fillers)
    (whole : ∀ filler ∈ fillers, filler.IsWhole) :
    (∀ chunk ∈ (remainder.cutting statementEnd).chunks, LeavesBlank chunk.source) ∧
      (Filler.Tidy false fillers ↔
        ∀ chunk ∈ (remainder.cutting statementEnd).chunks, chunk.probe = []) := by
  induction remainder using cutting_induction statementEnd generalizing fillers with
  | blank remainder blank =>
    obtain ⟨later, _, left, tidy⟩ := Filler.exists_afterBlanks fillers
    have nothing : Filler.joined later = [] := by
      rw [← left, ← bytes]
      exact blank
    have trivially : Filler.Tidy true later := by
      cases later with
      | nil => exact trivial
      | cons filler later =>
        exact absurd (List.append_eq_nil_iff.mp nothing).1 filler.bytes_ne_nil
    rw [cutting_of_blank blank]
    exact ⟨nofun, fun _ => nofun, fun _ => tidy.mpr trivially⟩
  | stall remainder inked stalled =>
    exact absurd (cut?_eq_none_iff.mp stalled) (Segment.statementEnd_skipBlank_ne_zero inked)
  | cut remainder chunk rest inked cut ih =>
    obtain ⟨later, suffix, left, tidy⟩ := Filler.exists_afterBlanks fillers
    obtain ⟨cutOff, cuts⟩ := Filler.exists_cutsTo later fun filler member =>
      whole filler (suffix.subset member)
    obtain ⟨_, _, source, _, _, more⟩ := cut?_eq_some_iff.mp cut
    have trimmed : remainder.skipBlank.bytes = Filler.joined later := by
      rw [← left, ← bytes]
      rfl
    rw [trimmed] at source more
    obtain ⟨leaves, nothing⟩ := ih (more.trans cuts.left) cuts.whole
    have probe : chunk.probe = afterComments (opening (Filler.joined later)) :=
      congrArg afterComments source
    rw [cutting_of_cut inked cut]
    refine ⟨List.forall_mem_cons.mpr ⟨?_, leaves⟩, ?_⟩
    · rw [source]
      exact cuts.leaves
    · rw [tidy, cuts.tidy, nothing, List.forall_mem_cons, probe]

/-! ### What is left over -/

/-- Whether a statement runs what is left over of comments. Its bytes are a comment, with newlines
and more comments behind it, then a space, a tab or a semicolon, and whatever follows; and it runs
all of them as plain SQL. -/
structure Statement.IsLeftOver (statement : Statement) : Prop where
  source : ∃ (comment : Bytes) (later : List Bytes) (blank : UInt8) (rest : Bytes),
    statement.source = comment ++ (later.flatten ++ blank :: rest) ∧
      IsCommentPiece comment ∧ comment ≠ [newline] ∧ (∀ piece ∈ later, IsCommentPiece piece) ∧
      (blank = space ∨ blank = tab ∨ blank = semicolon)
  action : ∃ sql, statement.action = .exec sql ∧ Utf8.encode sql = statement.source

namespace Chunk

/-- A chunk as plain SQL, unless it is all comment. -/
def plain? (chunk : Chunk) : Option String :=
  if chunk.probe = [] then none else some (Utf8.lossy chunk.source)

/-- A chunk as a plain statement, unless it is all comment. -/
def leftOver? (chunk : Chunk) : Option Statement :=
  chunk.plain?.map fun sql => ⟨chunk.left, chunk.right, chunk.source, .exec sql⟩

theorem leftOver?_eq_some_iff {chunk : Chunk} {statement : Statement} :
    chunk.leftOver? = some statement ↔ chunk.probe ≠ [] ∧
      statement = ⟨chunk.left, chunk.right, chunk.source, .exec (Utf8.lossy chunk.source)⟩ := by
  unfold leftOver? plain?
  by_cases nothing : chunk.probe = []
  · simp [nothing]
  · simp [nothing, eq_comm]

theorem sources_leftOver (chunks : List Chunk) :
    (chunks.filterMap leftOver?).map Statement.source =
      (chunks.map source).filter fun text => ¬IsAllComment text := by
  induction chunks with
  | nil => rfl
  | cons chunk chunks ih =>
    have allComment : IsAllComment chunk.source ↔ chunk.probe = [] := isAllComment_iff
    rw [List.map_cons, List.filter_cons, ← ih, List.filterMap_cons]
    by_cases nothing : chunk.probe = [] <;> simp [leftOver?, plain?, allComment, nothing]

/-- A chunk that has a blank behind its comments begins with a comment. -/
theorem isLeftOver {chunk : Chunk} {statement : Statement} (valid : Utf8.IsText chunk.source)
    (begins : ∃ first later, chunk.source = first :: later ∧ isBlank first = false)
    (leaves : LeavesBlank chunk.source) (left : chunk.leftOver? = some statement) :
    statement.IsLeftOver := by
  obtain ⟨something, rfl⟩ := leftOver?_eq_some_iff.mp left
  refine ⟨?_, _, rfl, Utf8.encode_lossy valid⟩
  obtain ⟨blank, rest, probe, isBlank⟩ := leaves.resolve_left something
  obtain ⟨pieces, source, allPieces, code⟩ := exists_pieces something
  rw [probe] at source code
  obtain ⟨first, _, starts, solid⟩ := begins
  cases pieces with
  | nil =>
    have same : first = blank := (List.cons.inj (starts.symm.trans source)).1
    rw [same, isBlank] at solid
    cases solid
  | cons comment later =>
    obtain ⟨isPiece, others⟩ := List.forall_mem_cons.mp allPieces
    refine ⟨comment, later, blank, rest, ?_, isPiece, ?_, others, ?_⟩
    · rw [source, List.flatten_cons, List.append_assoc]
    · rintro rfl
      have same : first = newline := (List.cons.inj (starts.symm.trans source)).1
      rw [same] at solid
      cases solid
    · have other : blank ≠ newline := fun same => code.1 (congrArg some same)
      simp only [Scan.isBlank, isPadding, Bool.or_eq_true, beq_iff_eq] at isBlank
      simpa [other, or_assoc] using isBlank

end Chunk

/-- A chunk that has a blank or nothing behind its comments is plain SQL or a comment, and defines
nothing. -/
theorem Progress.take_of_leavesBlank {chunk : Chunk} (valid : Utf8.IsText chunk.source)
    (leaves : LeavesBlank chunk.source) (progress : Progress) :
    progress.take standard chunk =
      .ok (progress.adopt chunk (progress.context, chunk.plain?.map Action.exec)) := by
  obtain ⟨text, encoded⟩ := valid
  rw [take_eq_ok_iff_means]
  rcases leaves with nothing | ⟨first, rest, probe, blank⟩
  · have none : chunk.plain? = none := if_pos nothing
    rw [none]
    exact ⟨text, .comment, (progress.context, _), encoded, .comment nothing, rfl, rfl⟩
  · obtain ⟨something, free⟩ := isPlain_of_isBlank probe blank
    have shown : Utf8.lossy chunk.source = text :=
      Utf8.lossy_eq_of_decode_eq_ok (Utf8.decode_eq_ok_iff.mpr encoded)
    have plain : chunk.plain? = some text := (if_neg something).trans (congrArg some shown)
    rw [plain]
    exact ⟨text, .plain text, (progress.context, some (.exec text)), encoded,
      .plain something free, rfl, rfl⟩

/-- Chunks of this kind add what is left over of them. -/
theorem Progress.takeAll_of_leavesBlank {chunks : List Chunk}
    (leaves : ∀ chunk ∈ chunks, Utf8.IsText chunk.source ∧ LeavesBlank chunk.source)
    (progress : Progress) :
    progress.takeAll standard chunks =
      .ok ⟨progress.context, (chunks.filterMap Chunk.leftOver?).reverse ++ progress.recorded⟩ := by
  induction chunks generalizing progress with
  | nil => rfl
  | cons chunk chunks ih =>
    obtain ⟨⟨valid, leavesHere⟩, leavesLater⟩ := List.forall_mem_cons.mp leaves
    rw [takeAll, take_of_leavesBlank valid leavesHere]
    show takeAll standard (progress.adopt chunk _) chunks = _
    rw [ih leavesLater, List.filterMap_cons]
    unfold adopt Chunk.leftOver?
    cases chunk.plain? <;> simp

namespace Filler

variable (fillers : List Filler)

/-- What is left over of fillers: their chunks as plain statements, but for those that are all
comment. -/
def leftOver : List Statement :=
  ((Remainder.whole (joined fillers)).cutting statementEnd).chunks.filterMap Chunk.leftOver?

/-- The statements are segments of the fixture. -/
theorem sources_leftOver :
    (leftOver fillers).map Statement.source =
      ((Segment.ofFixture (joined fillers)).map (Segment.bytes (joined fillers))).filter
        fun text => ¬IsAllComment text := by
  rw [leftOver, Chunk.sources_leftOver, Segment.sources_eq_ofFixture]

variable {fillers} (whole : ∀ filler ∈ fillers, filler.IsWhole)

include whole

/-- The chunks of fillers are texts with a blank or nothing behind their comments. -/
theorem probes_chunks :
    (∀ chunk ∈ ((Remainder.whole (joined fillers)).cutting statementEnd).chunks,
      Utf8.IsText chunk.source ∧ LeavesBlank chunk.source) ∧
    (Tidy false fillers ↔
      ∀ chunk ∈ ((Remainder.whole (joined fillers)).cutting statementEnd).chunks,
        chunk.probe = []) := by
  have bytes : (Remainder.whole (joined fillers)).bytes = joined fillers := rfl
  have valid : Utf8.IsText (Remainder.whole (joined fillers)).bytes := isText_joined fillers
  obtain ⟨leaves, tidy⟩ := Remainder.probes_of_fillers bytes whole
  exact ⟨fun chunk among =>
    ⟨Remainder.isText_of_mem_chunks valid chunk among, leaves chunk among⟩, tidy⟩

/-- Nothing is left over exactly if the fillers are tidy. -/
theorem tidy_iff_leftOver_eq_nil : Tidy false fillers ↔ leftOver fillers = [] := by
  rw [(probes_chunks whole).2, leftOver, List.filterMap_eq_nil_iff]
  refine forall₂_congr fun chunk _ => ?_
  simp [Chunk.leftOver?, Chunk.plain?]

theorem isLeftOver_of_mem {statement : Statement} (member : statement ∈ leftOver fillers) :
    statement.IsLeftOver := by
  obtain ⟨chunk, among, left⟩ := List.mem_filterMap.mp member
  obtain ⟨valid, leaves⟩ := (probes_chunks whole).1 chunk among
  have begins := Remainder.begins_of_mem_chunks statementEnd _ chunk among
  exact Chunk.isLeftOver valid begins leaves left

/-- **The chunks of fillers come to what is left over.** -/
theorem takeAll_chunks :
    Progress.start.takeAll standard ((Remainder.whole (joined fillers)).cutting statementEnd).chunks =
      .ok ⟨.empty, (leftOver fillers).reverse⟩ := by
  rw [Progress.takeAll_of_leavesBlank (probes_chunks whole).1, Progress.start, List.append_nil]
  rfl

end Filler

/-! ### A whole build -/

namespace Test

/-- The limit is not reached where it allows as many chunks as there are bytes. -/
theorem not_reachesLimit_of_length_le {limit : Nat} {name : String} {fixture : Bytes}
    (enough : fixture.length ≤ limit) : ¬ReachesLimit { limit := limit } name fixture := by
  intro reached
  have few := Remainder.length_chunks_le statementEnd (.whole fixture)
  exact (build_eq_iterationLimit_iff.mp reached).2 (limitPlace?_eq_none_iff.mpr
    ⟨Nat.le_trans few enough, Remainder.stall_whole fixture⟩)

/-- No statement is all blank or all comment, whatever the configuration is. -/
theorem solid_of_mem_statements {config : Config} {name : String} {fixture : Bytes} {test : Test}
    (built : build config name fixture = .ok test) {statement : Statement}
    (member : statement ∈ test.statements) :
    (∃ byte ∈ statement.source, isBlank byte = false) ∧ ¬IsAllComment statement.source := by
  obtain ⟨_, _, _, rfl⟩ := build_eq_ok built
  obtain ⟨chunk, among, something, source⟩ := Chunk.exists_of_mem_statements member
  obtain ⟨first, later, begins, solid⟩ :=
    Remainder.begins_of_mem_chunks config.delimiter _ chunk (List.mem_of_mem_take among)
  rw [source]
  refine ⟨⟨first, ?_, solid⟩, fun allComment => something (isAllComment_iff.mp allComment)⟩
  rw [begins]
  exact List.mem_cons_self

/-- **A fixture without code is empty if it is tidy.** Let a fixture consist of blanks and complete
comments, where no block comment ends a line with a semicolon, and let the limit not be reached, as
is so for every limit that allows as many chunks as the fixture has bytes. Then it is empty exactly
if nothing but newlines and comments stands behind each comment, up to the next semicolon that ends
its line. Otherwise it builds and defines nothing, and its statements are what is left over: in
order the segments of the fixture that are not all comment, each of them a comment with a space, a
tab or a semicolon behind it, run as plain SQL. And whatever the configuration is, no statement of
any fixture is all blank or all comment. -/
theorem build_fillers (fillers : List Filler) (whole : ∀ filler ∈ fillers, filler.IsWhole)
    (limit : Nat) (name : String) :
    (¬ReachesLimit { limit := limit } name (Filler.joined fillers) →
      (Filler.Tidy false fillers ↔
        build { limit := limit } name (Filler.joined fillers) = .error (.empty name)) ∧
      (¬Filler.Tidy false fillers →
        ∃ statements, build { limit := limit } name (Filler.joined fillers) =
            .ok ⟨name, .empty, statements⟩ ∧
          statements.map Statement.source =
            ((Segment.ofFixture (Filler.joined fillers)).map
              (Segment.bytes (Filler.joined fillers))).filter (fun text => ¬IsAllComment text) ∧
          ∀ statement ∈ statements, statement.IsLeftOver)) ∧
    ((Filler.joined fillers).length ≤ limit →
      ¬ReachesLimit { limit := limit } name (Filler.joined fillers)) ∧
    ∀ config called fixture test, build config called fixture = .ok test →
      ∀ statement ∈ test.statements,
        (∃ byte ∈ statement.source, isBlank byte = false) ∧
        ¬IsAllComment statement.source := by
  refine ⟨fun unreached => ?_, not_reachesLimit_of_length_le,
    fun _ _ _ _ built _ => solid_of_mem_statements built⟩
  have taken := Filler.takeAll_chunks whole
  have moving := Remainder.stall_whole (Filler.joined fillers)
  have few := few_of_unreached taken unreached
  have nothing := Filler.tidy_iff_leftOver_eq_nil whole
  have left (untidy : ¬Filler.Tidy false fillers) :
      build { limit := limit } name (Filler.joined fillers) =
        .ok ⟨name, .empty, Filler.leftOver fillers⟩ := by
    have something : (Filler.leftOver fillers).reverse ≠ [] := by
      rw [ne_eq, List.reverse_eq_nil_iff, ← nothing]
      exact untidy
    rw [build_of_takeAll _ name few moving taken something, List.reverse_reverse]
  refine ⟨⟨fun tidy => ?_, fun failed => Classical.byContradiction fun untidy => ?_⟩, fun untidy =>
    ⟨_, left untidy, Filler.sources_leftOver fillers, fun statement member => ?_⟩⟩
  · refine build_of_takeAll_of_nothing _ name few moving taken ?_
    rw [nothing.mp tidy, List.reverse_nil]
  · rw [left untidy] at failed
    cases failed
  · exact Filler.isLeftOver_of_mem whole member

/-- Two line comments, the first of which ends its chunk, and a block comment with a semicolon; and
a space that is left over behind a comment. -/
theorem build_fillers_of_three_comments :
    let fillers : List Filler := [.lineComment " a;" (by decide +kernel), .blank space rfl,
      .blockComment " ; é" (by decide +kernel), .blank newline rfl,
      .lineComment "" (by decide +kernel)]
    let leftOver : List Filler := [.blockComment " a " (by decide +kernel), .blank space rfl]
    (∀ filler ∈ fillers, filler.IsWhole) ∧ Filler.Tidy false fillers ∧
    ¬ReachesLimit { limit := 30 } "t" (Filler.joined fillers) ∧
    build { limit := 30 } "t" (Filler.joined fillers) = .error (.empty "t") ∧
    (∀ filler ∈ leftOver, filler.IsWhole) ∧ ¬Filler.Tidy false leftOver ∧
    ∃ statements, build { limit := 30 } "t" (Filler.joined leftOver) =
        .ok ⟨"t", .empty, statements⟩ ∧
      statements.map Statement.source = [asciiBytes "/* a */ "] ∧
      ∀ statement ∈ statements, statement.IsLeftOver ∧ ¬IsAllComment statement.source := by
  intro fillers leftOver
  have whole : ∀ filler ∈ fillers, filler.IsWhole := by decide +kernel
  have tidy : Filler.Tidy false fillers := by decide +kernel
  obtain ⟨empty, unreached, _⟩ := build_fillers fillers whole 30 "t"
  have unreachedHere := unreached (by decide +kernel)
  have wholeLeft : ∀ filler ∈ leftOver, filler.IsWhole := by decide +kernel
  have untidy : ¬Filler.Tidy false leftOver := by decide +kernel
  obtain ⟨emptyLeft, unreachedLeft, solid⟩ := build_fillers leftOver wholeLeft 30 "t"
  obtain ⟨statements, built, sources, left⟩ :=
    (emptyLeft (unreachedLeft (by decide +kernel))).2 untidy
  refine ⟨whole, tidy, unreachedHere, (empty unreachedHere).1.mp tidy, wholeLeft, untidy,
    statements, built, sources.trans (by decide +kernel), fun statement member => ⟨?_, ?_⟩⟩
  · exact left statement member
  · exact (solid _ _ _ _ built statement member).2

/-- **Other fixtures without code are not empty.** A space behind a comment is recorded together
with the comment. And where a block comment ends a line with a semicolon, the rest of it is
executed. -/
theorem codeless_recorded :
    (let fillers : List Filler := [.blockComment " a " (by decide +kernel), .blank space rfl]
      ∃ test, build { limit := 1 } "t" (Filler.joined fillers) = .ok test ∧
        test.statements.map Statement.action = [.exec "/* a */ "]) ∧
    (let fillers : List Filler := [.blockComment ";\nx" (by decide +kernel)]
      ∃ test, build { limit := 2 } "t" (Filler.joined fillers) = .ok test ∧
        test.statements.map Statement.action = [.exec "x*/"]) := by
  constructor
  · intro fillers
    have told : (build { limit := 1 } "t" (Filler.joined fillers)).toOption.map
        (fun test => test.statements.map Statement.action) = some [.exec "/* a */ "] := by
      decide +kernel
    exact exists_of_toOption told
  · intro fillers
    have told : (build { limit := 2 } "t" (Filler.joined fillers)).toOption.map
        (fun test => test.statements.map Statement.action) = some [.exec "x*/"] := by
      decide +kernel
    exact exists_of_toOption told

end Test

end SqlFixture
