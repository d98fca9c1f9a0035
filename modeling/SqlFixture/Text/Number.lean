/-
**Numbers written in digits.**

Numbers that people write for the library fit into a word of 64 bits.

* `Number.digit?`: the value of a digit in bases up to sixteen;
* `Number.ofDigits`: the number that digits of a base stand for, which fits into a word
  (`lt_wordBound_of_ofDigits_eq_some`).
-/

namespace SqlFixture.Number

/-- The value of a hexadecimal digit, of either case. -/
def digit? (digit : Char) : Option Nat :=
  if digit.isDigit then some (digit.toNat - '0'.toNat)
  else if 'a' ≤ digit && digit ≤ 'f' then some (digit.toNat - 'a'.toNat + 10)
  else if 'A' ≤ digit && digit ≤ 'F' then some (digit.toNat - 'A'.toNat + 10)
  else none

/-- The first number that does not fit into a word. -/
def wordBound : Nat := UInt64.size

/-- Appends a digit of a base to a number, as long as the result fits into a word. -/
def append? (base number : Nat) (digit : Char) : Option Nat :=
  match digit? digit with
  | some next =>
    if next < base ∧ number * base + next < wordBound then some (number * base + next) else none
  | none => none

theorem lt_wordBound_of_append?_eq_some {base number longer : Nat} {digit : Char}
    (appended : append? base number digit = some longer) : longer < wordBound := by
  unfold append? at appended
  split at appended
  · split at appended
    · next fits => exact Option.some.inj appended ▸ fits.2
    · simp at appended
  · simp at appended

/-- The number that digits stand for in a base; `none` if there are none, or one is no digit of the
base, or the number does not fit into a word. -/
def ofDigits (base : Nat) (digits : List Char) : Option Nat :=
  if digits.isEmpty then none else digits.foldlM (append? base) 0

theorem lt_wordBound_of_ofDigits_eq_some {base number : Nat} {digits : List Char}
    (read : ofDigits base digits = some number) : number < wordBound := by
  have kept : ∀ (later : List Char) (start : Nat), start < wordBound →
      later.foldlM (append? base) start = some number → number < wordBound := by
    intro later
    induction later with
    | nil =>
      intro start fits same
      exact Option.some.inj same ▸ fits
    | cons digit later ih =>
      intro start _ appended
      obtain ⟨longer, first, rest⟩ := Option.bind_eq_some_iff.mp appended
      exact ih longer (lt_wordBound_of_append?_eq_some first) rest
  unfold ofDigits at read
  split at read
  · simp at read
  · exact kept digits 0 (by decide) read

example : ofDigits 10 "18446744073709551615".toList = some (2 ^ 64 - 1) := by decide +kernel

example : ofDigits 10 "18446744073709551616".toList = none := by decide +kernel

end SqlFixture.Number
