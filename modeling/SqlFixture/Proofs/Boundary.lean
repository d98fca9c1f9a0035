import SqlFixture.Proofs.Encoding
import SqlFixture.Scan.Comment
import SqlFixture.Scan.Cut

/-
**Texts are cut between characters.**

A byte below 0x80 is a character of its own and part of no other one. So bytes that are a text stay
texts when they are cut around such a byte, and all that the scanners look for are bytes of this
kind: blanks, comment signs, newlines. Read from the front, the characters of a text are determined,
so that a text whose beginning is a text ends in a text as well.

* `Utf8.IsText`: the bytes of some text;
* `Utf8.IsText.cut`, `Utf8.IsText.of_append`: both sides of a cut, and the rest behind a text;
* `Utf8.IsLongestText`: the length of the longest beginning that is a text, which is what decoding
  tells (`isLongestText_of_decode`), and tells alike of a stretch inside a longer byte string
  (`IsLongestText.within_append`);
* `Scan.isText_afterComments`, `Scan.isText_trim`, `Scan.isText_of_splitAround?`: the scanners cut
  between characters.
-/

namespace SqlFixture

namespace Utf8

/-- Whether bytes encode some text. -/
def IsText (bytes : Bytes) : Prop := ∃ text, bytes = encode text

variable {bytes before behind rest : Bytes} {byte first : UInt8}

theorem isText_iff_decode : IsText bytes ↔ ∃ text, decode bytes = .ok text :=
  exists_congr fun _ => decode_eq_ok_iff.symm

theorem isText_nil : IsText [] := ⟨"", rfl⟩

theorem IsText.append (start : IsText before) (last : IsText behind) :
    IsText (before ++ behind) := by
  obtain ⟨front, rfl⟩ := start
  obtain ⟨back, rfl⟩ := last
  exact ⟨front ++ back, (encode_append front back).symm⟩

/-- What is shown of a text encodes it. -/
theorem encode_lossy (valid : IsText bytes) : encode (lossy bytes) = bytes := by
  obtain ⟨text, rfl⟩ := valid
  rw [lossy_eq_of_decode_eq_ok (decode_eq_ok_iff.mpr rfl)]

/-! ### Characters -/

theorem isText_encodeCode (value : Char) : IsText (encodeCode value.toNat) := by
  refine ⟨String.ofList [value], ?_⟩
  rw [encode, String.toList_ofList, List.flatMap_cons, List.flatMap_nil, List.append_nil]

theorem encodeCode_ne_nil (value : Char) : encodeCode value.toNat ≠ [] := by
  obtain ⟨first, tail, spelled, _⟩ := piece_encodeCode value []
  rw [spelled]
  exact List.cons_ne_nil first tail

/-- A text is empty, or it is a character and a text. -/
theorem IsText.cases (valid : IsText bytes) :
    bytes = [] ∨ ∃ (value : Char) (rest : Bytes),
      bytes = encodeCode value.toNat ++ rest ∧ IsText rest := by
  obtain ⟨text, rfl⟩ := valid
  unfold encode
  cases text.toList with
  | nil => exact .inl rfl
  | cons value later =>
    refine .inr ⟨value, _, List.flatMap_cons, String.ofList later, ?_⟩
    rw [encode, String.toList_ofList]

/-- A property of texts follows along their characters. -/
theorem IsText.induction {Holds : (bytes : Bytes) → IsText bytes → Prop}
    (nil : Holds [] isText_nil)
    (character : ∀ (value : Char) (rest : Bytes) (valid : IsText rest), Holds rest valid →
      Holds (encodeCode value.toNat ++ rest) ((isText_encodeCode value).append valid))
    {bytes : Bytes} (valid : IsText bytes) : Holds bytes valid := by
  induction size : bytes.length using Nat.strongRecOn generalizing bytes with
  | _ length ih =>
    rcases valid.cases with rfl | ⟨value, rest, rfl, later⟩
    · exact nil
    · refine character value rest later (ih _ ?_ later rfl)
      have least := List.length_pos_iff.mpr (encodeCode_ne_nil value)
      rw [List.length_append] at size
      omega

theorem high_of_mem_encodeCode {value : Char} (large : 0x80 ≤ value.toNat)
    (member : byte ∈ encodeCode value.toNat) : 0x80 ≤ byte.toNat := by
  have bound := value.valid
  have below : value.toNat < 0x110000 := by
    rcases bound with small | ⟨_, small⟩
    · exact Nat.lt_trans small (by decide)
    · exact small
  unfold encodeCode at member
  split at member
  · omega
  split at member
  · simp only [List.mem_cons, List.not_mem_nil, or_false] at member
    rcases member with rfl | rfl <;> rw [toNat_byte _ (by omega)] <;> omega
  split at member
  · simp only [List.mem_cons, List.not_mem_nil, or_false] at member
    rcases member with rfl | rfl | rfl <;> rw [toNat_byte _ (by omega)] <;> omega
  · simp only [List.mem_cons, List.not_mem_nil, or_false] at member
    rcases member with rfl | rfl | rfl | rfl <;> rw [toNat_byte _ (by omega)] <;> omega

/-- A byte below 0x80 in a character is all of it. -/
theorem encodeCode_eq_singleton {value : Char} (low : byte.toNat < 0x80)
    (member : byte ∈ encodeCode value.toNat) : encodeCode value.toNat = [byte] := by
  by_cases small : value.toNat < 0x80
  · rw [encodeCode, if_pos small] at member ⊢
    rw [List.mem_singleton.mp member]
  · have high := high_of_mem_encodeCode (Nat.le_of_not_lt small) member
    omega

/-! ### Cuts -/

/-- **Both sides of a byte below 0x80 are texts.** -/
theorem IsText.cut (valid : IsText (before ++ byte :: behind)) (low : byte.toNat < 0x80) :
    IsText before ∧ IsText behind := by
  generalize whole : before ++ byte :: behind = bytes at valid
  induction valid using IsText.induction generalizing before with
  | nil => exact absurd whole (List.append_ne_nil_of_right_ne_nil _ (List.cons_ne_nil _ _))
  | character value rest restValid ih =>
    rcases List.append_eq_append_iff.mp whole with ⟨inside, same, later⟩ | ⟨inside, same, later⟩
    · -- The byte stands in the first character, or right behind it.
      cases inside with
      | nil =>
        rw [List.append_nil] at same
        have here : [] ++ byte :: behind = rest := later
        obtain ⟨_, valid⟩ := ih here
        exact ⟨same ▸ isText_encodeCode value, valid⟩
      | cons other inside =>
        obtain ⟨rfl, rfl⟩ := List.cons.inj later
        have alone : encodeCode value.toNat = [byte] := by
          refine encodeCode_eq_singleton low ?_
          rw [same]
          exact List.mem_append_right _ List.mem_cons_self
        rw [alone] at same
        obtain ⟨rfl, rfl⟩ : before = [] ∧ inside = [] := by
          cases before with
          | nil => exact ⟨rfl, ((List.cons.inj same).2).symm⟩
          | cons head tail =>
            have empty := (List.cons.inj same).2
            exact absurd empty.symm (List.append_ne_nil_of_right_ne_nil _ (List.cons_ne_nil _ _))
        exact ⟨isText_nil, restValid⟩
    · obtain ⟨front, back⟩ := ih later.symm
      exact ⟨same ▸ (isText_encodeCode value).append front, back⟩

/-- Bytes below 0x80 are a text. -/
theorem isText_of_low (low : ∀ byte ∈ bytes, byte.toNat < 0x80) : IsText bytes := by
  induction bytes with
  | nil => exact isText_nil
  | cons byte bytes ih =>
    have small := low byte List.mem_cons_self
    have valid : byte.toNat.isValidChar := .inl (Nat.lt_trans small (by decide))
    have alone : encodeCode (Char.ofNat byte.toNat).toNat = [byte] := by
      rw [toNat_ofNat_of_isValid valid, encodeCode, if_pos small, ofNat_eq byte rfl]
    have first := isText_encodeCode (Char.ofNat byte.toNat)
    rw [alone] at first
    exact first.append (ih fun other member => low other (.tail _ member))

/-- **What follows a text in a text is a text**: the characters are read from the front. -/
theorem IsText.of_append (start : IsText before) (whole : IsText (before ++ rest)) :
    IsText rest := by
  induction start using IsText.induction with
  | nil => exact whole
  | character value later laterValid ih =>
    rw [List.append_assoc] at whole
    refine ih ?_
    obtain ⟨first, tail, spelled, read⟩ := piece_encodeCode value (later ++ rest)
    rcases whole.cases with empty | ⟨other, behind, same, valid⟩
    · rw [spelled] at empty
      cases empty
    · obtain ⟨head, more, spelledOther, readOther⟩ := piece_encodeCode other behind
      rw [spelled, spelledOther, List.cons_append, List.cons_append] at same
      obtain ⟨rfl, continued⟩ := List.cons.inj same
      rw [continued, readOther] at read
      rw [← (Prod.mk.inj read).2]
      exact valid

theorem IsText.of_append_low (whole : IsText (before ++ rest))
    (low : ∀ byte ∈ rest, byte.toNat < 0x80) : IsText before := by
  cases rest with
  | nil => rwa [List.append_nil] at whole
  | cons byte rest => exact (whole.cut (low byte List.mem_cons_self)).1

/-! ### The longest text in front -/

/-- A piece that is no character begins no text. -/
theorem not_isText_of_malformed {bad : Bytes} (read : (piece first rest).1 = .malformed bad)
    {count : Nat} : ¬IsText (first :: rest.take count) := by
  intro valid
  rcases valid.cases with empty | ⟨value, behind, same, _⟩
  · cases empty
  · obtain ⟨head, tail, spelled, readCharacter⟩ :=
      piece_encodeCode value (behind ++ rest.drop count)
    rw [spelled, List.cons_append] at same
    obtain ⟨rfl, continued⟩ := List.cons.inj same
    rw [← List.append_assoc, ← continued, List.take_append_drop] at readCharacter
    rw [readCharacter] at read
    cases read

/-- Decoding stops behind a text, at a piece that is no character. -/
theorem exists_of_collect_eq_error {offset stopped : Nat} {done : List Char}
    (collected : collect offset done (pieces bytes) = .error stopped) :
    ∃ front first rest bad, bytes = front ++ first :: rest ∧ IsText front ∧
      (piece first rest).1 = .malformed bad ∧ stopped = offset + front.length := by
  induction bytes using piece_induction generalizing offset done with
  | nil =>
    rw [pieces_nil] at collected
    cases collected
  | cons first rest ih =>
    rw [pieces_cons] at collected
    cases read : (piece first rest).1 with
    | malformed bad =>
      rw [read] at collected
      cases collected
      exact ⟨[], first, rest, bad, rfl, isText_nil, read, rfl⟩
    | character value =>
      rw [read] at collected
      obtain ⟨front, head, tail, bad, divided, valid, stops, rfl⟩ := ih collected
      refine ⟨encodeCode value.toNat ++ front, head, tail, bad, ?_,
        (isText_encodeCode value).append valid, stops, ?_⟩
      · rw [List.append_assoc, ← divided]
        exact eq_of_piece_eq_character (Prod.ext read rfl)
      · rw [List.length_append, width, Nat.add_assoc]

/-- The length of the longest beginning that is a text. -/
structure IsLongestText (bytes : Bytes) (length : Nat) : Prop where
  within : length ≤ bytes.length
  isText : IsText (bytes.take length)
  longest : ∀ longer, length < longer → longer ≤ bytes.length → ¬IsText (bytes.take longer)

/-- **Decoding tells the length of the longest beginning that is a text.** -/
theorem isLongestText_of_decode {offset : Nat} (failed : decode bytes = .error offset) :
    IsLongestText bytes offset ∧ ¬IsText bytes := by
  obtain ⟨front, first, rest, bad, rfl, valid, stops, same⟩ := exists_of_collect_eq_error failed
  rw [Nat.zero_add] at same
  subst same
  refine ⟨⟨?_, ?_, fun longer above _ whole => ?_⟩, fun whole => ?_⟩
  · rw [List.length_append]
    exact Nat.le_add_right ..
  · rw [List.take_left]
    exact valid
  · obtain ⟨count, rfl⟩ := Nat.exists_eq_add_of_lt above
    rw [Nat.add_assoc, List.take_length_add_append, List.take_succ_cons] at whole
    exact not_isText_of_malformed stops (valid.of_append whole)
  · have fault : ¬IsText (first :: rest.take rest.length) := not_isText_of_malformed stops
    rw [List.take_length] at fault
    exact fault (valid.of_append whole)

theorem IsLongestText.unique {length other : Nat} (first : IsLongestText bytes length)
    (second : IsLongestText bytes other) : length = other := by
  rcases Nat.lt_trichotomy length other with less | same | more
  · exact absurd second.isText (first.longest other less second.within)
  · exact same
  · exact absurd first.isText (second.longest length more first.within)

/-- Decoding fails where bytes are no text, and tells the length of the longest one in front. -/
theorem decode_eq_error_iff {offset : Nat} :
    decode bytes = .error offset ↔ ¬IsText bytes ∧ IsLongestText bytes offset := by
  constructor
  · intro failed
    exact (isLongestText_of_decode failed).symm
  · rintro ⟨fault, longest⟩
    cases decodes : decode bytes with
    | ok text => exact absurd ⟨text, decode_eq_ok_iff.mp decodes⟩ fault
    | error other => rw [(isLongestText_of_decode decodes).1.unique longest]

theorem IsLongestText.not_isText {length : Nat} (longest : IsLongestText bytes length)
    (short : length < bytes.length) : ¬IsText bytes := by
  have fault := longest.longest bytes.length short (Nat.le_refl _)
  rwa [List.take_length] at fault

/-- In a longer byte string, the longest text in front ends where it ends in a stretch that is no
text, if a text stands before the stretch and no continuation byte behind it. -/
theorem IsLongestText.within_append {stretch : Bytes} {length : Nat}
    (longest : IsLongestText stretch length) (fault : ¬IsText stretch) (start : IsText before)
    (ends : ∀ byte ∈ behind.head?, byte.toNat < 0x80) :
    IsLongestText (before ++ (stretch ++ behind)) (before.length + length) := by
  have inside := longest.within
  refine ⟨?_, ?_, fun longer above _ whole => ?_⟩
  · rw [List.length_append, List.length_append]
    omega
  · rw [List.take_length_add_append, List.take_append_of_le_length inside]
    exact start.append longest.isText
  · obtain ⟨count, rfl⟩ : ∃ count, longer = before.length + count :=
      Nat.exists_eq_add_of_le (by omega)
    rw [List.take_length_add_append] at whole
    have tail := start.of_append whole
    by_cases short : count ≤ stretch.length
    · rw [List.take_append_of_le_length short] at tail
      exact longest.longest count (by omega) short tail
    · -- The stretch is followed by a byte of its own, around which the text may be cut.
      rw [List.take_append, List.take_of_length_le (Nat.le_of_not_le short)] at tail
      cases behind with
      | nil =>
        rw [List.take_nil, List.append_nil] at tail
        exact fault tail
      | cons byte behind =>
        obtain ⟨more, some_left⟩ : ∃ more, count - stretch.length = more + 1 :=
          Nat.exists_eq_succ_of_ne_zero (by omega)
        rw [some_left, List.take_succ_cons] at tail
        exact fault (tail.cut (ends byte rfl)).1

end Utf8

/-! ### The scanners -/

namespace Scan

open Utf8

theorem low_of_isBlank {byte : UInt8} (blank : isBlank byte = true) : byte.toNat < 0x80 := by
  simp only [isBlank, isPadding, Bool.or_eq_true, beq_iff_eq] at blank
  rcases blank with (rfl | rfl | rfl) | rfl <;> decide

theorem low_of_isPadding {byte : UInt8} (padding : isPadding byte = true) : byte.toNat < 0x80 := by
  refine low_of_isBlank ?_
  rw [isBlank, padding, Bool.or_true, Bool.true_or]

theorem isText_blanks (bytes : Bytes) : IsText (blanks bytes) :=
  isText_of_low fun _ member => low_of_isBlank (isBlank_of_mem_blanks member)

/-- Whether a scan that has skipped something of `bytes` stands behind a newline or a slash, or at
the end. -/
def StopsBehindComment (bytes rest : Bytes) : Prop :=
  rest = [] ∨ ∃ front last, bytes = front ++ last :: rest ∧ (last = newline ∨ last = slash)

theorem StopsBehindComment.cons {bytes rest : Bytes} (stops : StopsBehindComment bytes rest)
    (byte : UInt8) : StopsBehindComment (byte :: bytes) rest := by
  rcases stops with nothing | ⟨front, last, rfl, ends⟩
  · exact .inl nothing
  · exact .inr ⟨byte :: front, last, rfl, ends⟩

theorem stopsBehindComment_cons {bytes rest : Bytes} {byte : UInt8}
    (ends : byte = newline ∨ byte = slash)
    (stops : rest = bytes ∨ StopsBehindComment bytes rest) :
    StopsBehindComment (byte :: bytes) rest := by
  rcases stops with rfl | stops
  · exact .inr ⟨[], byte, rfl, ends⟩
  · exact stops.cons byte

/-- Comments end behind a newline or a slash, unless nothing is left or nothing is skipped. -/
theorem afterCommentsFrom_stops (mode : CommentMode) (bytes : Bytes) :
    mode = .code ∧ afterCommentsFrom mode bytes = bytes ∨
      StopsBehindComment bytes (afterCommentsFrom mode bytes) := by
  fun_induction afterCommentsFrom mode bytes with
  | case1 mode => exact .inr (.inl rfl)
  | case2 => exact .inr (.inl rfl)
  | case3 => exact .inl ⟨rfl, rfl⟩
  | case4 second rest ih => exact .inr (stopsBehindComment_cons (.inl rfl) (ih.imp And.right id))
  | case5 first second rest _ _ ih =>
    have inside := ih.resolve_left fun outside => CommentMode.noConfusion outside.1
    exact .inr ((inside.cons second).cons first)
  | case6 first second rest _ _ _ ih =>
    have inside := ih.resolve_left fun outside => CommentMode.noConfusion outside.1
    exact .inr ((inside.cons second).cons first)
  | case7 => exact .inl ⟨rfl, rfl⟩
  | case8 rest ih => exact .inr (stopsBehindComment_cons (.inl rfl) (ih.imp And.right id))
  | case9 byte rest _ ih =>
    have inside := ih.resolve_left fun outside => CommentMode.noConfusion outside.1
    exact .inr (inside.cons byte)
  | case10 => exact .inr (.inl rfl)
  | case11 first second rest ends ih =>
    have closed := stopsBehindComment_cons (.inr ends.2) (ih.imp And.right id)
    exact .inr (closed.cons first)
  | case12 first second rest _ ih =>
    have inside := ih.resolve_left fun outside => CommentMode.noConfusion outside.1
    exact .inr (inside.cons first)

variable {bytes first behind : Bytes} {separator : UInt8}

/-- Behind the comments of a text stands a text. -/
theorem isText_afterComments (valid : IsText bytes) : IsText (afterComments bytes) := by
  rw [afterComments_eq]
  rcases afterCommentsFrom_stops .code bytes with ⟨_, whole⟩ | nothing | ⟨front, last, same, ends⟩
  · rw [whole]
    exact valid
  · rw [nothing]
    exact isText_nil
  · rw [same] at valid
    refine (valid.cut ?_).2
    rcases ends with rfl | rfl <;> decide

theorem isText_trim (valid : IsText bytes) : IsText (trim bytes) := by
  obtain ⟨before, behind, whole, paddingBefore, paddingBehind⟩ := exists_eq_trim bytes
  rw [whole, List.append_assoc] at valid
  have lowBefore : ∀ byte ∈ before, byte.toNat < 0x80 := fun byte member =>
    low_of_isPadding (List.all_eq_true.mp paddingBefore byte member)
  have lowBehind : ∀ byte ∈ behind, byte.toNat < 0x80 := fun byte member =>
    low_of_isPadding (List.all_eq_true.mp paddingBehind byte member)
  exact ((isText_of_low lowBefore).of_append valid).of_append_low lowBehind

theorem isText_of_splitAround? (valid : IsText bytes) (low : separator.toNat < 0x80)
    (split : splitAround? separator bytes = some (first, behind)) :
    IsText first ∧ IsText behind := by
  obtain ⟨rfl, _⟩ := splitAround?_eq_some_iff.mp split
  exact valid.cut low

end Scan

end SqlFixture
