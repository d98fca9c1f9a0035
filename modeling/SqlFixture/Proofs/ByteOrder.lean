import SqlFixture.Dictionary
import SqlFixture.Proofs.Encoding

/-
**Texts stand in the order of their bytes.**

A code point with a larger number takes more bytes, or as many bytes with a larger one at the first
place where they differ. So texts that are compared character by character come in the same order as
their bytes, and keys in increasing order are in increasing order of their bytes.

* `Utf8.encodeCode_append_lt`: two code points, whatever follows them;
* `Utf8.encode_lt_encode`: two texts;
* `Dictionary.pairwise_encode_keys`: the keys of a dictionary.
-/

namespace SqlFixture

namespace Utf8

/-- Bytes compare by their first number, and behind equal ones by the rest. -/
theorem cons_lt_cons {first second : Nat} {rest later : Bytes} (small : second < 0x100)
    (order : first ≤ second) (behind : first = second → rest < later) :
    UInt8.ofNat first :: rest < UInt8.ofNat second :: later := by
  refine List.cons_lt_cons_iff.mpr ?_
  rcases Nat.lt_or_eq_of_le order with less | same
  · left
    show (UInt8.ofNat first).toNat < (UInt8.ofNat second).toNat
    rwa [toNat_byte first (by omega), toNat_byte second small]
  · exact .inr ⟨congrArg UInt8.ofNat same, behind same⟩

/-- Equal numbers in front of bytes leave the order to what is behind them. Where all numbers of two
code points agree the code points do, which ends each chain. -/
theorem encodeCode_append_lt {code other : Nat} (less : code < other) (valid : other < 0x110000)
    (rest later : Bytes) : encodeCode code ++ rest < encodeCode other ++ later := by
  unfold encodeCode
  by_cases one : other < 0x80
  · rw [if_pos (by omega), if_pos one]
    exact cons_lt_cons (by omega) (by omega) fun _ => by omega
  rw [if_neg one]
  by_cases two : other < 0x800
  · rw [if_pos two]
    split
    · exact cons_lt_cons (by omega) (by omega) fun _ => by omega
    · rw [if_pos (by omega)]
      exact cons_lt_cons (by omega) (by omega) fun _ =>
        cons_lt_cons (by omega) (by omega) fun _ => by omega
  rw [if_neg two]
  by_cases three : other < 0x10000
  · rw [if_pos three]
    split
    · exact cons_lt_cons (by omega) (by omega) fun _ => by omega
    split
    · exact cons_lt_cons (by omega) (by omega) fun _ => by omega
    · rw [if_pos (by omega)]
      exact cons_lt_cons (by omega) (by omega) fun _ =>
        cons_lt_cons (by omega) (by omega) fun _ =>
        cons_lt_cons (by omega) (by omega) fun _ => by omega
  · rw [if_neg three]
    split
    · exact cons_lt_cons (by omega) (by omega) fun _ => by omega
    split
    · exact cons_lt_cons (by omega) (by omega) fun _ => by omega
    split
    · exact cons_lt_cons (by omega) (by omega) fun _ => by omega
    · exact cons_lt_cons (by omega) (by omega) fun _ =>
        cons_lt_cons (by omega) (by omega) fun _ =>
        cons_lt_cons (by omega) (by omega) fun _ =>
        cons_lt_cons (by omega) (by omega) fun _ => by omega

/-- **The order of texts is the order of their bytes.** -/
theorem encode_lt_encode {first second : String} (less : first < second) :
    encode first < encode second := by
  rw [String.lt_iff, ← List.lex_lt] at less
  unfold encode
  generalize first.toList = characters, second.toList = others at less ⊢
  induction less with
  | @nil value characters =>
    obtain ⟨head, tail, bytes, _⟩ := piece_encodeCode value []
    rw [List.flatMap_cons, bytes]
    exact List.nil_lt_cons head _
  | cons _ ih =>
    rw [List.flatMap_cons, List.flatMap_cons]
    exact List.append_left_lt ih
  | @rel value _ other _ below =>
    have numbers : value.toNat < other.toNat := below
    have valid : other.toNat < 0xD800 ∨ 0xDFFF < other.toNat ∧ other.toNat < 0x110000 :=
      other.valid
    rw [List.flatMap_cons, List.flatMap_cons]
    exact encodeCode_append_lt numbers (by omega) _ _

end Utf8

theorem Dictionary.pairwise_encode_keys (dictionary : Dictionary String α) :
    (dictionary.keys.map Utf8.encode).Pairwise (· < ·) := by
  rw [keys, List.map_map, List.pairwise_map]
  exact dictionary.sorted.imp Utf8.encode_lt_encode

end SqlFixture
