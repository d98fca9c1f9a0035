import SqlFixture.Proofs.Marking

/-
**The mark on a statement that is no text.**

Where bytes begin a character and do not complete it, one replacement character is shown, and it
takes three bytes however many it stands for. A refusal marks a span that is counted in bytes of the
fixture. So the mark on a statement that cannot be decoded begins where the statement begins in the
shown text, and it ends too early by what the replaced runs of bytes have less than three each.

* `Utf8.lossy_append_of_low`: what is shown in front of an ASCII byte does not depend on it;
* `Utf8.faults`: the runs of bytes that are replaced;
* `Utf8.length_encode_lossy`: the room that shown bytes take;
* `Test.mark_of_undecodable`: the mark is right exactly if each replaced run has three bytes;
* `Test.mark_inside_character`: with a single byte that is replaced it ends inside a character.
-/

namespace SqlFixture

open Directive Utf8

namespace Utf8

variable {behind : Bytes}

/-! ### Pieces in front of an ASCII byte -/

section

variable (low : ∀ byte ∈ behind.head?, byte.toNat < 0x80)

include low

/-- A character that is begun ends in front of an ASCII byte as it ends at the end of the input. -/
theorem complete_append_of_low {least : Nat} (continuing : 0x80 ≤ least)
    (missing most code : Nat) (taken rest : Bytes) :
    complete missing least most code taken (rest ++ behind) =
      ((complete missing least most code taken rest).1,
        (complete missing least most code taken rest).2 ++ behind) := by
  induction missing generalizing least most code taken rest with
  | zero => rfl
  | succ missing ih =>
    cases rest with
    | nil =>
      cases behind with
      | nil => rfl
      | cons byte behind =>
        have small := low byte rfl
        show complete (missing + 1) least most code taken (byte :: behind) =
          (.malformed taken.reverse, byte :: behind)
        rw [complete, if_neg (by omega)]
    | cons byte rest =>
      rw [List.cons_append, complete, complete]
      split
      · exact ih (Nat.le_refl 0x80) ..
      · rfl

theorem piece_append_of_low (first : UInt8) (rest : Bytes) :
    piece first (rest ++ behind) = ((piece first rest).1, (piece first rest).2 ++ behind) := by
  cases readsFrom_piece first with
  | character value reads => rw [reads, reads]
  | malformed reads => rw [reads, reads]
  | begun missing least most code few continuing reads =>
    rw [reads, reads]
    exact complete_append_of_low low continuing ..

theorem pieces_append_of_low (front : Bytes) :
    pieces (front ++ behind) = pieces front ++ pieces behind := by
  induction front using piece_induction with
  | nil => rw [pieces_nil, List.nil_append, List.nil_append]
  | cons first rest ih =>
    rw [List.cons_append, pieces_cons, pieces_cons, piece_append_of_low low, ih, List.cons_append]

/-- **What is shown of bytes in front of an ASCII byte** does not depend on what is behind them. -/
theorem lossy_append_of_low (front : Bytes) :
    lossy (front ++ behind) = lossy front ++ lossy behind := by
  rw [lossy, pieces_append_of_low low, List.map_append, String.ofList_append]
  rfl

end

/-! ### The bytes of a piece -/

/-- The bytes that a piece is read from. -/
def Piece.bytes : Piece → Bytes
  | .character value => encodeCode value.toNat
  | .malformed run => run

/-- The run of bytes that a piece replaces, if it is no character. -/
def Piece.fault? : Piece → Option Bytes
  | .character _ => none
  | .malformed run => some run

variable {first : UInt8} {rest left run : Bytes}

theorem eq_of_complete_eq_malformed {missing least most code : Nat} {taken : Bytes}
    (read : complete missing least most code taken rest = (.malformed run, left)) :
    taken.reverse ++ rest = run ++ left ∧ run.length < taken.length + missing := by
  induction missing generalizing least most code taken rest with
  | zero => cases read
  | succ missing ih =>
    cases rest with
    | nil =>
      cases read
      refine ⟨rfl, ?_⟩
      rw [List.length_reverse]
      omega
    | cons byte rest =>
      rw [complete] at read
      split at read
      · obtain ⟨whole, few⟩ := ih read
        rw [List.reverse_cons, List.append_assoc, List.singleton_append] at whole
        rw [List.length_cons] at few
        exact ⟨whole, by omega⟩
      · cases read
        refine ⟨rfl, ?_⟩
        rw [List.length_reverse]
        omega

/-- A run that is no character has one to three bytes of the input, of which a fourth one would
complete a character. -/
theorem eq_of_piece_eq_malformed (read : piece first rest = (.malformed run, left)) :
    first :: rest = run ++ left ∧ run.length ≤ 3 := by
  cases readsFrom_piece first with
  | character value reads =>
    rw [reads] at read
    cases read
  | malformed reads =>
    rw [reads] at read
    cases read
    exact ⟨rfl, Nat.le_add_left 1 2⟩
  | begun missing least most code few continuing reads =>
    rw [reads] at read
    obtain ⟨whole, short⟩ := eq_of_complete_eq_malformed read
    rw [List.length_singleton] at short
    exact ⟨whole, by omega⟩

theorem bytes_piece_append (first : UInt8) (rest : Bytes) :
    (piece first rest).1.bytes ++ (piece first rest).2 = first :: rest := by
  cases read : (piece first rest).1 with
  | character value => exact (eq_of_piece_eq_character (Prod.ext read rfl)).symm
  | malformed run => exact (eq_of_piece_eq_malformed (Prod.ext read rfl)).1.symm

/-- No byte is lost or added by the cut into pieces. -/
theorem flatMap_bytes_pieces (bytes : Bytes) : (pieces bytes).flatMap Piece.bytes = bytes := by
  induction bytes using piece_induction with
  | nil => rw [pieces_nil, List.flatMap_nil]
  | cons first rest ih => rw [pieces_cons, List.flatMap_cons, ih, bytes_piece_append]

theorem length_le_of_mem_pieces {bytes run : Bytes} (member : .malformed run ∈ pieces bytes) :
    run.length ≤ 3 := by
  induction bytes using piece_induction with
  | nil => rw [pieces_nil] at member; cases member
  | cons first rest ih =>
    rw [pieces_cons] at member
    rcases List.mem_cons.mp member with here | later
    · exact (eq_of_piece_eq_malformed (Prod.ext here.symm rfl)).2
    · exact ih later

/-! ### The room of what is shown -/

/-- The runs of bytes that are shown as one replacement character each. -/
def faults (bytes : Bytes) : List Bytes := (pieces bytes).filterMap Piece.fault?

/-- The number of bytes by which runs fall short of the replacement characters for them. -/
def shortfall : List Bytes → Nat
  | [] => 0
  | run :: later => 3 - run.length + shortfall later

@[simp] theorem shortfall_nil : shortfall [] = 0 := rfl

@[simp] theorem shortfall_cons (run : Bytes) (later : List Bytes) :
    shortfall (run :: later) = 3 - run.length + shortfall later := rfl

theorem length_le_of_mem_faults {bytes : Bytes} (member : run ∈ faults bytes) :
    run.length ≤ 3 := by
  obtain ⟨part, listed, same⟩ := List.mem_filterMap.mp member
  cases part with
  | character value => cases same
  | malformed bad =>
    cases same
    exact length_le_of_mem_pieces listed

theorem encode_lossy_eq (bytes : Bytes) :
    encode (lossy bytes) =
      (pieces bytes).flatMap fun part => encodeCode part.shown.toNat := by
  rw [encode, lossy, String.toList_ofList, List.flatMap_map]

theorem length_shown (part : Piece) (short : ∀ run ∈ part.fault?, run.length ≤ 3) :
    (encodeCode part.shown.toNat).length =
      part.bytes.length + shortfall part.fault?.toList := by
  cases part with
  | character value => rfl
  | malformed run =>
    have few := short run rfl
    show 3 = run.length + shortfall [run]
    rw [shortfall_cons, shortfall_nil]
    omega

/-- **The room that shown bytes take**: their own, and what their faults fall short. -/
theorem length_encode_lossy (bytes : Bytes) :
    (encode (lossy bytes)).length = bytes.length + shortfall (faults bytes) := by
  have room (parts : List Piece) (short : ∀ part ∈ parts, ∀ run ∈ part.fault?, run.length ≤ 3) :
      (parts.flatMap fun part => encodeCode part.shown.toNat).length =
        (parts.flatMap Piece.bytes).length + shortfall (parts.filterMap Piece.fault?) := by
    induction parts with
    | nil => rfl
    | cons part later ih =>
      obtain ⟨here, others⟩ := List.forall_mem_cons.mp short
      have one := length_shown part here
      have all := ih others
      rw [List.flatMap_cons, List.flatMap_cons, List.length_append, List.length_append, one, all]
      cases fault : part.fault? with
      | none =>
        rw [List.filterMap_cons_none fault, Option.toList_none, shortfall_nil]
        omega
      | some run =>
        rw [List.filterMap_cons_some fault, Option.toList_some, shortfall_cons, shortfall_cons,
          shortfall_nil]
        omega
  rw [encode_lossy_eq, room, flatMap_bytes_pieces]
  · rfl
  · intro part member run fault
    exact length_le_of_mem_faults (List.mem_filterMap.mpr ⟨part, member, fault⟩)

theorem shortfall_eq_zero_iff {runs : List Bytes} (short : ∀ run ∈ runs, run.length ≤ 3) :
    shortfall runs = 0 ↔ ∀ run ∈ runs, run.length = 3 := by
  induction runs with
  | nil => exact ⟨fun _ => List.forall_mem_nil _, fun _ => rfl⟩
  | cons run later ih =>
    obtain ⟨few, others⟩ := List.forall_mem_cons.mp short
    rw [shortfall_cons, List.forall_mem_cons, ← ih others]
    omega

/-- What a span cuts out between characters is what its bytes are read as. -/
theorem Cuts.decode {text part : String} {span : Nat × Nat} (cuts : Cuts text span part) :
    decode (((encode text).drop span.1).take span.2) = .ok part := by
  obtain ⟨before, behind, rfl, offset, length⟩ := cuts
  rw [decode_eq_ok_iff, encode_append, encode_append, List.append_assoc, ← offset, List.drop_left,
    ← length, List.take_left]

end Utf8

/-! ### A whole build -/

namespace Test

variable {name : String} {fixture : Bytes}

/-- A refused chunk is what some pass cuts off behind a text, and all of the fixture is shown. -/
theorem exists_divided_of_refused {config : Config} {called shown : String}
    {left right : Position} {cause : StatementError}
    (refused : build config name fixture = .error (.refused called left right cause shown)) :
    ∃ (before : String) (remainder rest : Remainder) (chunk : Chunk) (progress : Progress),
      remainder.cut? config.delimiter = some (chunk, rest) ∧
      progress.take config.interpreters chunk = .error cause ∧
      fixture = encode before ++ (chunk.source ++ rest.bytes) ∧
      left.index = (encode before).length ∧
      right.index = left.index + chunk.source.length ∧ shown = lossy fixture := by
  obtain ⟨chunk, refusal, rfl, rfl⟩ := build_eq_refused refused
  obtain ⟨passes, last, rest, reached, _, cut, taken⟩ := Loop.exists_cut_of_refusal refusal
  have valid := Loop.valid_of_after reached
  have tail := valid.tail.skipBlank
  obtain ⟨before, front⟩ := valid.before_skipBlank
  obtain ⟨_, right, _⟩ := tail.cut cut
  have left := (Remainder.cut?_eq_some_iff.mp cut).2.1
  refine ⟨before, _, rest, chunk, last.progress, cut, taken, ?_, ?_, right, ?_⟩
  · rw [← front, Remainder.source_append_bytes cut, tail.bytes, List.take_append_drop]
  · rw [← front, List.length_take, Nat.min_eq_left tail.within, left]
  · have told := refused.symm.trans (build_of_refusal refusal)
    cases told
    rfl

/-- **The mark on a statement that is no text is right exactly if each run of bytes that is replaced
in it has three bytes.** Where the usual delimiter and the usual chain refuse a statement because it
cannot be decoded, the shown text has the statement between what is shown of the bytes before it and
of those behind it, and the mark begins where the statement begins. But it is as long as the bytes
of the statement in the fixture, and so it ends before the shown statement does: by one byte for
each run of two, and by two for each single byte. -/
theorem mark_of_undecodable {limit offset : Nat} {called shown : String} {left right : Position}
    (refused : build { limit := limit } name fixture =
      .error (.refused called left right (.invalidUtf8 offset) shown)) :
    ∃ before statement behind,
      statement = (Segment.mk left.index right.index).bytes fixture ∧
      decode statement = .error offset ∧
      shown = before ++ lossy statement ++ behind ∧
      (encode before).length = (Position.span left right).1 ∧
      (encode (lossy statement)).length =
        (Position.span left right).2 + shortfall (faults statement) ∧
      (Cuts shown (Position.span left right) (lossy statement) ↔
        ∀ run ∈ faults statement, run.length = 3) := by
  obtain ⟨before, remainder, rest, chunk, progress, cut, taken, divided, begins, ends, rfl⟩ :=
    exists_divided_of_refused refused
  have slice : chunk.source = (Segment.mk left.index right.index).bytes fixture := by
    show chunk.source = (fixture.drop left.index).take (right.index - left.index)
    rw [ends, Nat.add_sub_cancel_left, divided, begins, List.drop_left, List.take_left]
  have marked : Position.span left right = (left.index, chunk.source.length) := by
    rw [Position.span_of_le (by omega), ends, Nat.add_sub_cancel_left]
  have shown : lossy fixture = before ++ lossy chunk.source ++ lossy rest.bytes := by
    rw [divided, lossy_append, lossy_append_of_low (Remainder.low_of_cut cut), String.append_assoc]
  have room := length_encode_lossy chunk.source
  refine ⟨before, chunk.source, lossy rest.bytes, slice,
    Progress.decode_of_take_eq_invalidUtf8 taken, shown, ?_, ?_, ?_⟩
  · rw [marked, begins]
  · rw [marked, room]
  · rw [← shortfall_eq_zero_iff fun _ => length_le_of_mem_faults]
    constructor
    · rintro ⟨_, _, _, _, same⟩
      rw [marked, room] at same
      omega
    · intro nothing
      refine ⟨before, lossy rest.bytes, shown, ?_, ?_⟩
      · rw [marked, begins]
      · rw [marked, room, nothing, Nat.add_zero]

/-- A statement with accents in which a character of four bytes misses its last one. -/
theorem mark_of_undecodable_of_three_bytes :
    let front := "SELECT 'é';\n"
    let fixture := encode (front ++ "SELECT 'ü") ++ [0xF0, 0x9F, 0x98] ++ encode "';\nSELECT 2"
    ∃ left right,
      build {} "t" fixture = .error (.refused "t" left right (.invalidUtf8 10)
        (front ++ "SELECT 'ü\uFFFD';\nSELECT 2")) ∧
      Cuts (front ++ "SELECT 'ü\uFFFD';\nSELECT 2") (Position.span left right)
        "SELECT 'ü\uFFFD'" := by
  intro front fixture
  have told : failure? (build {} "t" fixture) =
      some (.refused "t" ⟨1, 13⟩ ⟨1, 27⟩ (.invalidUtf8 10)
        (front ++ "SELECT 'ü\uFFFD';\nSELECT 2")) := by
    decide +kernel
  have refused := failure?_eq_some_iff.mp told
  refine ⟨_, _, refused, ?_⟩
  obtain ⟨_, statement, _, slice, _, _, _, _, right⟩ := mark_of_undecodable refused
  have runs : faults ((Segment.mk 13 27).bytes fixture) = [[0xF0, 0x9F, 0x98]] := by decide +kernel
  have text : lossy ((Segment.mk 13 27).bytes fixture) = "SELECT 'ü\uFFFD'" := by decide +kernel
  rw [slice] at right
  rw [← text]
  refine right.mpr ?_
  rw [runs]
  decide

/-- A byte that begins no character takes one byte in the fixture and three in what is shown, so
that the mark on its statement ends inside the character that is shown behind it. -/
theorem mark_inside_character :
    let fixture := encode "SELECT 1;\nSELECT '" ++ [0xFF] ++ encode "'"
    let shown := "SELECT 1;\nSELECT '\uFFFD'"
    build {} "t" fixture =
        .error (.refused "t" ⟨1, 10⟩ ⟨1, 20⟩ (.invalidUtf8 8) shown) ∧
      lossy ((Segment.mk 10 20).bytes fixture) = "SELECT '\uFFFD'" ∧
      ∀ part, ¬Cuts shown (Position.span ⟨1, 10⟩ ⟨1, 20⟩) part := by
  intro fixture shown
  have told : failure? (build {} "t" fixture) =
      some (.refused "t" ⟨1, 10⟩ ⟨1, 20⟩ (.invalidUtf8 8) shown) := by
    decide +kernel
  refine ⟨failure?_eq_some_iff.mp told, by decide +kernel, fun part cuts => ?_⟩
  have inside : failure? (decode (((encode shown).drop 10).take 10)) = some 8 := by decide +kernel
  have whole := cuts.decode
  rw [failure?_eq_some_iff] at inside
  rw [show Position.span ⟨1, 10⟩ ⟨1, 20⟩ = (10, 10) from rfl, inside] at whole
  cases whole

end Test

end SqlFixture
