import SqlFixture.Text.CodeRange
import SqlFixture.Text.Utf8

/-
**Reading UTF-8 undoes writing it.**

A character is read back from its bytes whatever follows them, and a piece that is read as a
character consists of the bytes of that character, because the bounds on the second byte leave out
every other way of writing its number. So a byte string has a text exactly if it encodes that text.

* `Utf8.piece_encodeCode`, `Utf8.eq_of_piece_eq_character`: one character, in both directions;
* `Utf8.decode_eq_ok_iff`: whole texts.
-/

namespace SqlFixture.Utf8

/-! ### Bytes and their numbers -/

theorem toNat_byte (number : Nat) (small : number < 0x100) :
    (UInt8.ofNat number).toNat = number :=
  UInt8.toNat_ofNat_of_lt' small

theorem ofNat_eq (byte : UInt8) {number : Nat} (same : number = byte.toNat) :
    UInt8.ofNat number = byte :=
  same ▸ UInt8.ofNat_toNat

/-! ### From a character to its bytes -/

theorem complete_of_within {missing low high code : Nat} {taken rest : Bytes} {byte : UInt8}
    (above : low ≤ byte.toNat) (below : byte.toNat ≤ high) :
    complete (missing + 1) low high code taken (byte :: rest) =
      complete missing 0x80 0xBF (code * 0x40 + (byte.toNat - 0x80)) (byte :: taken) rest := by
  rw [complete, if_pos ⟨above, below⟩]

theorem piece_of_one {code : Nat} (below : code < 0x80) (rest : Bytes) :
    piece (UInt8.ofNat code) rest = (.character (Char.ofNat code), rest) := by
  have lead := toNat_byte code (by omega)
  simp only [piece, lead, if_pos below]

theorem piece_of_two {code : Nat} (above : 0x80 ≤ code) (below : code < 0x800) (rest : Bytes) :
    piece (UInt8.ofNat (0xC0 + code / 0x40)) (UInt8.ofNat (0x80 + code % 0x40) :: rest) =
      (.character (Char.ofNat code), rest) := by
  have lead := toNat_byte (0xC0 + code / 0x40) (by omega)
  have last := toNat_byte (0x80 + code % 0x40) (by omega)
  have number : (0xC0 + code / 0x40 - 0xC0) * 0x40 + (0x80 + code % 0x40 - 0x80) = code := by omega
  simp only [piece, lead]
  rw [if_neg (by omega), if_neg (by omega), if_pos (by omega),
    complete_of_within (by omega) (by omega), last, number]
  rfl

/-- The leads E0 and ED narrow the second byte: the one to leave out short forms, the other to leave
out surrogates. -/
theorem piece_of_three {code : Nat} (above : 0x800 ≤ code) (below : code < 0x10000)
    (valid : code.isValidChar) (rest : Bytes) :
    piece (UInt8.ofNat (0xE0 + code / 0x1000))
        (UInt8.ofNat (0x80 + code / 0x40 % 0x40) :: UInt8.ofNat (0x80 + code % 0x40) :: rest) =
      (.character (Char.ofNat code), rest) := by
  have lead := toNat_byte (0xE0 + code / 0x1000) (by omega)
  have middle := toNat_byte (0x80 + code / 0x40 % 0x40) (by omega)
  have last := toNat_byte (0x80 + code % 0x40) (by omega)
  have completed {low high start : Nat} (within : low ≤ 0x80 + code / 0x40 % 0x40)
      (inside : 0x80 + code / 0x40 % 0x40 ≤ high) (begun : start = code / 0x1000) (taken : Bytes) :
      complete 2 low high start taken
          (UInt8.ofNat (0x80 + code / 0x40 % 0x40) :: UInt8.ofNat (0x80 + code % 0x40) :: rest) =
        (.character (Char.ofNat code), rest) := by
    have number : (start * 0x40 + (0x80 + code / 0x40 % 0x40 - 0x80)) * 0x40 +
        (0x80 + code % 0x40 - 0x80) = code := by omega
    rw [complete_of_within (by omega) (by omega), complete_of_within (by omega) (by omega),
      middle, last, number]
    rfl
  simp only [piece, lead]
  rw [if_neg (by omega), if_neg (by omega), if_neg (by omega)]
  split
  · exact completed (by omega) (by omega) (by omega) _
  split
  · exact completed (by omega) (by omega) (by omega) _
  · rw [if_pos (by omega)]
    exact completed (by omega) (by omega) (by omega) _

/-- The leads F0 and F4 narrow the second byte: the one to leave out short forms, the other to leave
out numbers that are too large. -/
theorem piece_of_four {code : Nat} (above : 0x10000 ≤ code) (valid : code.isValidChar)
    (rest : Bytes) :
    piece (UInt8.ofNat (0xF0 + code / 0x40000))
        (UInt8.ofNat (0x80 + code / 0x1000 % 0x40) :: UInt8.ofNat (0x80 + code / 0x40 % 0x40) ::
          UInt8.ofNat (0x80 + code % 0x40) :: rest) =
      (.character (Char.ofNat code), rest) := by
  have lead := toNat_byte (0xF0 + code / 0x40000) (by omega)
  have second := toNat_byte (0x80 + code / 0x1000 % 0x40) (by omega)
  have third := toNat_byte (0x80 + code / 0x40 % 0x40) (by omega)
  have last := toNat_byte (0x80 + code % 0x40) (by omega)
  have completed {low high start : Nat} (within : low ≤ 0x80 + code / 0x1000 % 0x40)
      (inside : 0x80 + code / 0x1000 % 0x40 ≤ high) (begun : start = code / 0x40000)
      (taken : Bytes) :
      complete 3 low high start taken
          (UInt8.ofNat (0x80 + code / 0x1000 % 0x40) :: UInt8.ofNat (0x80 + code / 0x40 % 0x40) ::
            UInt8.ofNat (0x80 + code % 0x40) :: rest) =
        (.character (Char.ofNat code), rest) := by
    have number : ((start * 0x40 + (0x80 + code / 0x1000 % 0x40 - 0x80)) * 0x40 +
        (0x80 + code / 0x40 % 0x40 - 0x80)) * 0x40 + (0x80 + code % 0x40 - 0x80) = code := by omega
    rw [complete_of_within (by omega) (by omega), complete_of_within (by omega) (by omega),
      complete_of_within (by omega) (by omega), second, third, last, number]
    rfl
  simp only [piece, lead]
  rw [if_neg (by omega), if_neg (by omega), if_neg (by omega), if_neg (by omega),
    if_neg (by omega), if_neg (by omega)]
  split
  · exact completed (by omega) (by omega) (by omega) _
  split
  · exact completed (by omega) (by omega) (by omega) _
  · rw [if_pos (by omega)]
    exact completed (by omega) (by omega) (by omega) _

theorem piece_of_code {code : Nat} (valid : code.isValidChar) (rest : Bytes) :
    ∃ first tail, encodeCode code = first :: tail ∧
      piece first (tail ++ rest) = (.character (Char.ofNat code), rest) := by
  unfold encodeCode
  by_cases one : code < 0x80
  · rw [if_pos one]
    exact ⟨_, [], rfl, piece_of_one one rest⟩
  rw [if_neg one]
  by_cases two : code < 0x800
  · rw [if_pos two]
    exact ⟨_, [_], rfl, piece_of_two (by omega) two rest⟩
  rw [if_neg two]
  by_cases three : code < 0x10000
  · rw [if_pos three]
    exact ⟨_, [_, _], rfl, piece_of_three (by omega) three valid rest⟩
  · rw [if_neg three]
    exact ⟨_, [_, _, _], rfl, piece_of_four (by omega) valid rest⟩

/-- The bytes of a character are read as that character, whatever follows them. -/
theorem piece_encodeCode (value : Char) (rest : Bytes) :
    ∃ first tail, encodeCode value.toNat = first :: tail ∧
      piece first (tail ++ rest) = (.character value, rest) := by
  have valid : value.toNat.isValidChar := value.valid
  have read := piece_of_code valid rest
  rwa [Char.ofNat_toNat] at read

/-! ### From bytes to a character -/

theorem exists_of_complete_eq_character {missing low high code : Nat} {taken bytes left : Bytes}
    {value : Char}
    (completed : complete (missing + 1) low high code taken bytes = (.character value, left)) :
    ∃ byte rest, bytes = byte :: rest ∧ low ≤ byte.toNat ∧ byte.toNat ≤ high ∧
      complete missing 0x80 0xBF (code * 0x40 + (byte.toNat - 0x80)) (byte :: taken) rest =
        (.character value, left) := by
  cases bytes with
  | nil => cases completed
  | cons byte rest =>
    rw [complete] at completed
    split at completed
    next within => exact ⟨byte, rest, rfl, within.1, within.2, completed⟩
    · cases completed

section

variable {first : UInt8} {code low high : Nat} {taken rest left : Bytes} {value : Char}

theorem eq_of_complete_zero (valid : code.isValidChar)
    (completed : complete 0 low high code taken rest = (.character value, left)) :
    value.toNat = code ∧ rest = left := by
  simp only [complete, Prod.mk.injEq, Piece.character.injEq] at completed
  obtain ⟨rfl, same⟩ := completed
  exact ⟨toNat_ofNat_of_isValid valid, same⟩

theorem eq_of_complete_one (lead : first.toNat = 0xC0 + code) (long : 2 ≤ code)
    (small : code < 0x20)
    (completed : complete 1 0x80 0xBF code taken rest = (.character value, left)) :
    first :: rest = encodeCode value.toNat ++ left := by
  obtain ⟨last, rest, rfl, above, below, done⟩ := exists_of_complete_eq_character completed
  obtain ⟨number, rfl⟩ := eq_of_complete_zero (by omega) done
  rw [number, encodeCode, if_neg (by omega), if_pos (by omega), ofNat_eq first (by omega),
    ofNat_eq last (by omega)]
  rfl

theorem eq_of_complete_two (lead : first.toNat = 0xE0 + code) (small : code < 0x10)
    (continuing : 0x80 ≤ low ∧ high ≤ 0xBF) (long : code = 0 → 0xA0 ≤ low)
    (scalar : code = 0xD → high ≤ 0x9F)
    (completed : complete 2 low high code taken rest = (.character value, left)) :
    first :: rest = encodeCode value.toNat ++ left := by
  obtain ⟨middle, rest, rfl, within, inside, more⟩ := exists_of_complete_eq_character completed
  obtain ⟨last, rest, rfl, above, below, done⟩ := exists_of_complete_eq_character more
  obtain ⟨number, rfl⟩ := eq_of_complete_zero (by omega) done
  rw [number, encodeCode, if_neg (by omega), if_neg (by omega), if_pos (by omega),
    ofNat_eq first (by omega), ofNat_eq middle (by omega), ofNat_eq last (by omega)]
  rfl

theorem eq_of_complete_three (lead : first.toNat = 0xF0 + code) (small : code ≤ 4)
    (continuing : 0x80 ≤ low ∧ high ≤ 0xBF) (long : code = 0 → 0x90 ≤ low)
    (scalar : code = 4 → high ≤ 0x8F)
    (completed : complete 3 low high code taken rest = (.character value, left)) :
    first :: rest = encodeCode value.toNat ++ left := by
  obtain ⟨second, rest, rfl, within, inside, three⟩ := exists_of_complete_eq_character completed
  obtain ⟨third, rest, rfl, least, most, more⟩ := exists_of_complete_eq_character three
  obtain ⟨last, rest, rfl, above, below, done⟩ := exists_of_complete_eq_character more
  obtain ⟨number, rfl⟩ := eq_of_complete_zero (by omega) done
  rw [number, encodeCode, if_neg (by omega), if_neg (by omega), if_neg (by omega),
    ofNat_eq first (by omega), ofNat_eq second (by omega), ofNat_eq third (by omega),
    ofNat_eq last (by omega)]
  rfl

/-- A piece that is read as a character consists of the bytes of that character. -/
theorem eq_of_piece_eq_character (read : piece first rest = (.character value, left)) :
    first :: rest = encodeCode value.toNat ++ left := by
  simp only [piece] at read
  split at read
  next ascii =>
    obtain ⟨rfl, rfl⟩ : Char.ofNat first.toNat = value ∧ rest = left := by simpa using read
    rw [toNat_ofNat_of_isValid (by omega), encodeCode, if_pos ascii, ofNat_eq first rfl]
    rfl
  split at read
  · cases read
  split at read
  · exact eq_of_complete_one (by omega) (by omega) (by omega) read
  split at read
  · exact eq_of_complete_two (by omega) (by omega) (by omega) (by omega) (by omega) read
  split at read
  · exact eq_of_complete_two (by omega) (by omega) (by omega) (by omega) (by omega) read
  split at read
  · exact eq_of_complete_two (by omega) (by omega) (by omega) (by omega) (by omega) read
  split at read
  · exact eq_of_complete_three (by omega) (by omega) (by omega) (by omega) (by omega) read
  split at read
  · exact eq_of_complete_three (by omega) (by omega) (by omega) (by omega) (by omega) read
  split at read
  · exact eq_of_complete_three (by omega) (by omega) (by omega) (by omega) (by omega) read
  · cases read

end

/-! ### Texts -/

theorem encode_append (first second : String) :
    encode (first ++ second) = encode first ++ encode second := by
  rw [encode, String.toList_append, List.flatMap_append]
  rfl

theorem pieces_encode (characters : List Char) :
    pieces (characters.flatMap fun character => encodeCode character.toNat) =
      characters.map Piece.character := by
  induction characters with
  | nil => exact pieces_nil
  | cons value characters ih =>
    obtain ⟨first, tail, bytes, read⟩ := piece_encodeCode value
      (characters.flatMap fun character => encodeCode character.toNat)
    rw [List.flatMap_cons, bytes, List.cons_append, pieces_cons, read, ih, List.map_cons]

theorem collect_characters (offset : Nat) (done characters : List Char) :
    collect offset done (characters.map .character) =
      .ok (String.ofList (done.reverse ++ characters)) := by
  induction characters generalizing offset done with
  | nil => rw [List.append_nil]; rfl
  | cons value characters ih =>
    rw [List.map_cons, collect, ih, List.reverse_cons, List.append_assoc]
    rfl

/-- Pieces without a fault are characters, and their bytes are all there is. -/
theorem eq_of_collect_eq_ok {offset : Nat} {done : List Char} {bytes : Bytes} {text : String}
    (collected : collect offset done (pieces bytes) = .ok text) :
    ∃ characters, text = String.ofList (done.reverse ++ characters) ∧
      bytes = characters.flatMap fun character => encodeCode character.toNat := by
  induction bytes using piece_induction generalizing offset done with
  | nil =>
    rw [pieces_nil] at collected
    cases collected
    exact ⟨[], by rw [List.append_nil], rfl⟩
  | cons first rest ih =>
    rw [pieces_cons] at collected
    cases read : (piece first rest).1 with
    | malformed bytes => rw [read] at collected; cases collected
    | character value =>
      rw [read] at collected
      obtain ⟨characters, same, bytes⟩ := ih collected
      refine ⟨value :: characters, ?_, ?_⟩
      · rw [same, List.reverse_cons, List.append_assoc]
        rfl
      · rw [List.flatMap_cons, ← bytes]
        exact eq_of_piece_eq_character (Prod.ext read rfl)

/-- **Bytes have a text exactly if they encode it.** -/
theorem decode_eq_ok_iff {bytes : Bytes} {text : String} :
    decode bytes = .ok text ↔ bytes = encode text := by
  constructor
  · intro valid
    obtain ⟨characters, rfl, bytes⟩ := eq_of_collect_eq_ok valid
    rw [bytes, encode, List.reverse_nil, List.nil_append, String.toList_ofList]
  · rintro rfl
    rw [decode, encode, pieces_encode, collect_characters, List.reverse_nil, List.nil_append,
      String.ofList_toList]

theorem encode_injective {first second : String} (same : encode first = encode second) :
    first = second := by
  have read : decode (encode first) = .ok second := decode_eq_ok_iff.mpr same
  rw [decode_eq_ok_iff.mpr rfl] at read
  exact Except.ok.inj read

end SqlFixture.Utf8
