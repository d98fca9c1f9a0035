/-
**UTF-8, read piece by piece.**

A byte string is cut into pieces: a character of the encoding, or a run of bytes that begins a
character and cannot be completed. Every reading of bytes as text in this library goes through this
cut.

* `Utf8.readsFrom_piece`: how a piece is read, which its first byte decides;
* `Utf8.pieces`: the cut; `pieces_cons` is its equation and `piece_induction` follows it;
* `Utf8.decode`: the text, or the number of bytes before the first run that is no character;
* `Utf8.lossy`: the text in which each such run is one U+FFFD;
* `Utf8.encode`: the bytes of a text.
-/

namespace SqlFixture

/-- A sequence of bytes, the first one first. -/
abbrev Bytes := List UInt8

/-- The bytes of a text whose characters are all ASCII. -/
def asciiBytes (text : String) : Bytes :=
  text.toList.map fun character => UInt8.ofNat character.toNat

namespace Utf8

/-- One step of reading: a character, or bytes that begin a character but do not complete it. -/
inductive Piece where
  /-- A character that is encoded in full. -/
  | character (value : Char)
  /-- The longest beginning of a character, or a single byte that begins none. -/
  | malformed (bytes : Bytes)
deriving Repr, DecidableEq, Inhabited

/-! ### Writing -/

/-- The bytes of the code point `code`, in one to four bytes. -/
def encodeCode (code : Nat) : Bytes :=
  if code < 0x80 then
    [UInt8.ofNat code]
  else if code < 0x800 then
    [UInt8.ofNat (0xC0 + code / 0x40), UInt8.ofNat (0x80 + code % 0x40)]
  else if code < 0x10000 then
    [UInt8.ofNat (0xE0 + code / 0x1000), UInt8.ofNat (0x80 + code / 0x40 % 0x40),
      UInt8.ofNat (0x80 + code % 0x40)]
  else
    [UInt8.ofNat (0xF0 + code / 0x40000), UInt8.ofNat (0x80 + code / 0x1000 % 0x40),
      UInt8.ofNat (0x80 + code / 0x40 % 0x40), UInt8.ofNat (0x80 + code % 0x40)]

/-- The number of bytes that a character takes. -/
def width (character : Char) : Nat := (encodeCode character.toNat).length

/-- The bytes of a text. -/
def encode (text : String) : Bytes :=
  text.toList.flatMap fun character => encodeCode character.toNat

/-! ### Reading -/

/-- Reads the `missing` continuation bytes of a character whose bits so far are `code` and whose
bytes so far, the last one first, are `taken`. The next byte has to lie from `low` to `high`; the
ones after it only have to be continuation bytes. -/
def complete : (missing low high code : Nat) → (taken : Bytes) → Bytes → Piece × Bytes
  | 0, _, _, code, _, rest => (.character (Char.ofNat code), rest)
  | _ + 1, _, _, _, taken, [] => (.malformed taken.reverse, [])
  | missing + 1, low, high, code, taken, byte :: rest =>
    if low ≤ byte.toNat ∧ byte.toNat ≤ high then
      complete missing 0x80 0xBF (code * 0x40 + (byte.toNat - 0x80)) (byte :: taken) rest
    else
      (.malformed taken.reverse, byte :: rest)

/-- Reads the piece that begins with `first`. The bounds on the second byte leave out overlong
forms, surrogates and numbers above U+10FFFF. -/
def piece (first : UInt8) (rest : Bytes) : Piece × Bytes :=
  let lead := first.toNat
  if lead < 0x80 then (.character (Char.ofNat lead), rest)
  else if lead < 0xC2 then (.malformed [first], rest)
  else if lead < 0xE0 then complete 1 0x80 0xBF (lead - 0xC0) [first] rest
  else if lead = 0xE0 then complete 2 0xA0 0xBF 0 [first] rest
  else if lead = 0xED then complete 2 0x80 0x9F 0xD [first] rest
  else if lead < 0xF0 then complete 2 0x80 0xBF (lead - 0xE0) [first] rest
  else if lead = 0xF0 then complete 3 0x90 0xBF 0 [first] rest
  else if lead < 0xF4 then complete 3 0x80 0xBF (lead - 0xF0) [first] rest
  else if lead = 0xF4 then complete 3 0x80 0x8F 4 [first] rest
  else (.malformed [first], rest)

theorem length_complete_le (missing low high code : Nat) (taken rest : Bytes) :
    (complete missing low high code taken rest).2.length ≤ rest.length := by
  induction missing generalizing low high code taken rest with
  | zero => simp [complete]
  | succ missing ih =>
    cases rest with
    | nil => simp [complete]
    | cons byte rest =>
      rw [complete]
      split
      · exact Nat.le_trans (ih ..) (Nat.le_succ _)
      · exact Nat.le_refl _

/-- The ways to read a piece: its first byte is all of it, or begins a character for which up to
three more bytes are read. -/
inductive ReadsFrom (first : UInt8) (reader : Bytes → Piece × Bytes) : Prop
  | character (value : Char) (reads : ∀ rest, reader rest = (.character value, rest))
  | malformed (reads : ∀ rest, reader rest = (.malformed [first], rest))
  | begun (missing least most code : Nat) (few : missing ≤ 3) (continuing : 0x80 ≤ least)
      (reads : ∀ rest, reader rest = complete missing least most code [first] rest)

theorem ReadsFrom.ite {first : UInt8} {one other : Bytes → Piece × Bytes} {condition : Prop}
    [Decidable condition] (yes : ReadsFrom first one) (no : ReadsFrom first other) :
    ReadsFrom first fun rest => if condition then one rest else other rest := by
  by_cases holds : condition
  · simpa only [if_pos holds] using yes
  · simpa only [if_neg holds] using no

/-- **The first byte alone decides how its piece is read.** -/
theorem readsFrom_piece (first : UInt8) : ReadsFrom first (piece first) := by
  unfold piece
  refine .ite (.character _ fun _ => rfl) (.ite (.malformed fun _ => rfl) ?_)
  refine .ite (.begun 1 0x80 0xBF _ (by decide) (by decide) fun _ => rfl) ?_
  refine .ite (.begun 2 0xA0 0xBF _ (by decide) (by decide) fun _ => rfl) ?_
  refine .ite (.begun 2 0x80 0x9F _ (by decide) (by decide) fun _ => rfl) ?_
  refine .ite (.begun 2 0x80 0xBF _ (by decide) (by decide) fun _ => rfl) ?_
  refine .ite (.begun 3 0x90 0xBF _ (by decide) (by decide) fun _ => rfl) ?_
  refine .ite (.begun 3 0x80 0xBF _ (by decide) (by decide) fun _ => rfl) ?_
  refine .ite (.begun 3 0x80 0x8F _ (by decide) (by decide) fun _ => rfl) ?_
  exact .malformed fun _ => rfl

theorem length_piece_le (first : UInt8) (rest : Bytes) :
    (piece first rest).2.length ≤ rest.length := by
  cases readsFrom_piece first with
  | character value reads =>
    exact Nat.le_of_eq (congrArg (fun read => read.2.length) (reads rest))
  | malformed reads =>
    exact Nat.le_of_eq (congrArg (fun read => read.2.length) (reads rest))
  | begun missing least most code few continuing reads =>
    rw [reads]
    exact length_complete_le ..

/-- A property of byte strings follows along their pieces, each of which leaves fewer bytes. -/
@[elab_as_elim]
theorem piece_induction {Holds : Bytes → Prop} (nil : Holds [])
    (cons : ∀ first rest, Holds (piece first rest).2 → Holds (first :: rest)) (bytes : Bytes) :
    Holds bytes := by
  induction size : bytes.length using Nat.strongRecOn generalizing bytes with
  | _ length ih =>
    cases bytes with
    | nil => exact nil
    | cons first rest =>
      refine cons first rest (ih _ ?_ _ rfl)
      rw [← size, List.length_cons]
      exact Nat.lt_succ_of_le (length_piece_le first rest)

/-- The pieces of a byte string after those of `done`, which holds the last one first. -/
def piecesOnto (done : List Piece) : Bytes → List Piece
  | [] => done.reverse
  | first :: rest => piecesOnto ((piece first rest).1 :: done) (piece first rest).2
termination_by bytes => bytes.length
decreasing_by exact Nat.lt_succ_of_le (length_piece_le first rest)

/-- The pieces of a byte string, in order. -/
def pieces (bytes : Bytes) : List Piece := piecesOnto [] bytes

/-- The pieces already read stand in front of the others. -/
theorem piecesOnto_eq (done : List Piece) (bytes : Bytes) :
    piecesOnto done bytes = done.reverse ++ pieces bytes := by
  induction bytes using piece_induction generalizing done with
  | nil => simp [pieces, piecesOnto]
  | cons first rest ih =>
    rw [pieces, piecesOnto, piecesOnto, ih, ih [(piece first rest).1]]
    simp

@[simp] theorem pieces_nil : pieces [] = [] := by simp [pieces, piecesOnto]

theorem pieces_cons (first : UInt8) (rest : Bytes) :
    pieces (first :: rest) = (piece first rest).1 :: pieces (piece first rest).2 := by
  rw [pieces, piecesOnto, piecesOnto_eq]
  rfl

/-- Collects the characters of pieces onto `done`, the last one first, while `offset` counts the
bytes before the next piece; stops with that count at the first piece that is no character. -/
def collect (offset : Nat) (done : List Char) : List Piece → Except Nat String
  | [] => .ok (String.ofList done.reverse)
  | .character value :: rest => collect (offset + width value) (value :: done) rest
  | .malformed _ :: _ => .error offset

/-- The text that bytes encode, or the length of their longest beginning that is valid. -/
def decode (bytes : Bytes) : Except Nat String := collect 0 [] (pieces bytes)

/-- The character shown for a piece: U+FFFD stands for each one that is malformed. -/
def Piece.shown : Piece → Char
  | .character value => value
  | .malformed _ => Char.ofNat 0xFFFD

/-- The text of bytes that need not be valid. -/
def lossy (bytes : Bytes) : String := String.ofList ((pieces bytes).map Piece.shown)

/-- Characters that are collected without a fault are those shown. -/
theorem eq_shown_of_collect_eq_ok {offset : Nat} {done : List Char} {read : List Piece}
    {text : String} (collected : collect offset done read = .ok text) :
    text = String.ofList (done.reverse ++ read.map Piece.shown) := by
  induction read generalizing offset done with
  | nil => simpa [collect] using collected.symm
  | cons head later ih =>
    cases head with
    | character value => simpa [Piece.shown] using ih collected
    | malformed bytes => simp [collect] at collected

/-- Valid bytes show as the text that they encode. -/
theorem lossy_eq_of_decode_eq_ok {bytes : Bytes} {text : String}
    (valid : decode bytes = .ok text) : lossy bytes = text :=
  (eq_shown_of_collect_eq_ok valid).symm

end Utf8

end SqlFixture
