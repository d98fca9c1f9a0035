/-
**Ranges of code points and their bytes.**

The encodings of the characters in a range make up forms. A form has a range of bytes for each place
and stands for all byte strings that take the byte of each place from its range. The characters of
one form share their first bytes, then run through one range, then through all that can follow.

* `CodeRange.joined`: ranges that touch become one, and `covers_joined`: no code point is lost or won;
* `CodeRange.byteForms`: the forms of a range, in increasing order.
-/

namespace SqlFixture

theorem toNat_ofNat_of_isValid {code : Nat} (valid : code.isValidChar) :
    (Char.ofNat code).toNat = code := by
  rw [Char.ofNat, dif_pos valid]
  rfl

/-- The code points from the first to the last one. -/
structure CodeRange where
  first : Nat
  last : Nat
deriving Repr, DecidableEq

/-- The bytes from the first to the last one. -/
structure ByteRange where
  first : Nat
  last : Nat
deriving Repr, DecidableEq

/-- A range of bytes for each place. -/
abbrev ByteForm := List ByteRange

namespace CodeRange

/-- Whether a range holds a code point. -/
def holds (range : CodeRange) (code : Nat) : Bool := range.first ≤ code && code ≤ range.last

/-- Whether one of the ranges holds a code point. -/
def covers (ranges : List CodeRange) (code : Nat) : Bool := ranges.any fun range => range.holds code

/-- Puts a range in front of ranges behind it; if it touches the next one they become one. -/
def join (range : CodeRange) : List CodeRange → List CodeRange
  | [] => [range]
  | next :: later =>
    if range.last + 1 = next.first then ⟨range.first, next.last⟩ :: later
    else range :: next :: later

/-- Ranges in increasing order, where those that touch become one. -/
def joined (ranges : List CodeRange) : List CodeRange := ranges.foldr join []

/-- Joined ranges begin before they end. -/
theorem first_le_last_of_mem_joined {ranges : List CodeRange}
    (proper : ∀ range ∈ ranges, range.first ≤ range.last) :
    ∀ range ∈ joined ranges, range.first ≤ range.last := by
  induction ranges with
  | nil => simp [joined]
  | cons range ranges ih =>
    have later := ih fun other member => proper other (List.mem_cons_of_mem _ member)
    have here := proper range List.mem_cons_self
    change ∀ other ∈ join range (joined ranges), other.first ≤ other.last
    cases hjoined : joined ranges with
    | nil => simp [join, here]
    | cons next rest =>
      rw [hjoined] at later
      have behind := later next List.mem_cons_self
      simp only [join]
      split
      · refine List.forall_mem_cons.mpr ⟨?_, fun other member =>
          later other (List.mem_cons_of_mem _ member)⟩
        change range.first ≤ next.last
        omega
      · exact List.forall_mem_cons.mpr ⟨here, later⟩

/-- Joining loses no code point and wins none. -/
theorem covers_joined {ranges : List CodeRange}
    (proper : ∀ range ∈ ranges, range.first ≤ range.last) (code : Nat) :
    covers (joined ranges) code = covers ranges code := by
  induction ranges with
  | nil => rfl
  | cons range ranges ih =>
    have behind : ∀ other ∈ ranges, other.first ≤ other.last := fun other member =>
      proper other (List.mem_cons_of_mem _ member)
    have here := proper range List.mem_cons_self
    have later := first_le_last_of_mem_joined behind
    have joins : joined (range :: ranges) = join range (joined ranges) := rfl
    have splits : covers (range :: ranges) code = (range.holds code || covers ranges code) := rfl
    rw [joins, splits, ← ih behind]
    cases hjoined : joined ranges with
    | nil => rfl
    | cons next rest =>
      rw [hjoined] at later
      have next_proper := later next List.mem_cons_self
      simp only [join]
      split
      · simp only [covers, List.any_cons, ← Bool.or_assoc]
        congr 1
        rw [Bool.eq_iff_iff]
        simp only [holds, Bool.or_eq_true, Bool.and_eq_true, decide_eq_true_eq]
        omega
      · rfl

/-- The forms of the numbers from `first` to `last`, written with a place for the lead and `places`
places of six bits behind it. The byte of the lead adds `mark` to it, that of another place
`0x80`. -/
def formsOf (mark : Nat) : (places first last : Nat) → List ByteForm
  | 0, first, last => [[⟨mark + first, mark + last⟩]]
  | places + 1, first, last =>
    let block := 64 ^ (places + 1)
    let forms (low high start stop : Nat) : List ByteForm :=
      (formsOf 0x80 places start stop).map (⟨mark + low, mark + high⟩ :: ·)
    let low := first / block
    let high := last / block
    if low = high then forms low high (first % block) (last % block)
    else
      let beginsInside := first % block ≠ 0
      let endsInside := last % block ≠ block - 1
      let fromLead := if beginsInside then low + 1 else low
      let toLead := if endsInside then high - 1 else high
      (if beginsInside then forms low low (first % block) (block - 1) else []) ++
        (if fromLead ≤ toLead then forms fromLead toLead 0 (block - 1) else []) ++
        (if endsInside then forms high high 0 (last % block) else [])

/-- The part of a range from `low` to `high`. -/
def clip (range : CodeRange) (low high : Nat) : List CodeRange :=
  let first := max range.first low
  let last := min range.last high
  if first ≤ last then [⟨first, last⟩] else []

/-- The forms of a range that holds no surrogate. -/
def byteForms (range : CodeRange) : List ByteForm :=
  (range.clip 0 0x7F).flatMap (fun part => formsOf 0 0 part.first part.last) ++
    (range.clip 0x80 0x7FF).flatMap (fun part => formsOf 0xC0 1 part.first part.last) ++
    (range.clip 0x800 0xFFFF).flatMap (fun part => formsOf 0xE0 2 part.first part.last) ++
    (range.clip 0x10000 0x10FFFF).flatMap (fun part => formsOf 0xF0 3 part.first part.last)

/-- The two-byte characters from `é` to `ī` have two forms. -/
example : byteForms ⟨0xE9, 0x12B⟩ =
    [[⟨0xC3, 0xC3⟩, ⟨0xA9, 0xBF⟩], [⟨0xC4, 0xC4⟩, ⟨0x80, 0xAB⟩]] := by
  decide +kernel

end CodeRange

end SqlFixture
