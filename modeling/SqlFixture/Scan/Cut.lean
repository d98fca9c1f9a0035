import SqlFixture.Text.Utf8

/-
**Cutting byte strings.**

A directive is taken apart by two cuts: one behind a keyword in front, and one around the first
occurrence of a byte, such as the newline or the space.

* `Scan.afterKeyword?`: what follows a keyword, `afterKeyword?_eq_some_iff` says when;
* `Scan.splitAround?`: what stands before and behind a byte, `splitAround?_eq_some_iff` says when.
-/

namespace SqlFixture.Scan

/-- What follows a keyword that the bytes begin with. -/
def afterKeyword? : (keyword : Bytes) → Bytes → Option Bytes
  | [], bytes => some bytes
  | _ :: _, [] => none
  | letter :: keyword, byte :: bytes =>
    if letter = byte then afterKeyword? keyword bytes else none

/-- The bytes before the first `separator` and those behind it; `none` if there is none. -/
def splitAround? (separator : UInt8) (bytes : Bytes) : Option (Bytes × Bytes) :=
  match bytes.dropWhile (· != separator) with
  | [] => none
  | _ :: behind => some (bytes.takeWhile (· != separator), behind)

/-! ### What is cut off -/

theorem afterKeyword?_eq_some_iff {keyword bytes rest : Bytes} :
    afterKeyword? keyword bytes = some rest ↔ bytes = keyword ++ rest := by
  induction keyword generalizing bytes with
  | nil => simp [afterKeyword?]
  | cons letter keyword ih =>
    cases bytes with
    | nil => simp [afterKeyword?]
    | cons byte bytes =>
      by_cases same : letter = byte
      · simp [afterKeyword?, same, ih]
      · simp [afterKeyword?, same, Ne.symm same]

theorem splitAround?_cons (separator first : UInt8) (rest : Bytes) :
    splitAround? separator (first :: rest) =
      if first = separator then some ([], rest)
      else (splitAround? separator rest).map fun parts => (first :: parts.1, parts.2) := by
  by_cases same : first = separator
  · simp [splitAround?, same]
  · cases found : rest.dropWhile (· != separator) <;> simp [splitAround?, same, found]

/-- Bytes are split around the separator that no other one precedes. -/
theorem splitAround?_eq_some_iff {separator : UInt8} {bytes before behind : Bytes} :
    splitAround? separator bytes = some (before, behind) ↔
      bytes = before ++ separator :: behind ∧ separator ∉ before := by
  induction bytes generalizing before with
  | nil => simp [splitAround?]
  | cons first rest ih =>
    rw [splitAround?_cons]
    by_cases same : first = separator
    · cases before with
      | nil => simp [same, eq_comm]
      | cons head before => simp +contextual [same, eq_comm]
    · cases before with
      | nil => simp [same]
      | cons head before =>
        rw [if_neg same, Option.map_eq_some_iff]
        constructor
        · rintro ⟨⟨_, _⟩, found, equal⟩
          obtain ⟨⟨rfl, rfl⟩, rfl⟩ := Prod.mk.inj equal |>.imp List.cons.inj id
          obtain ⟨rfl, absent⟩ := ih.mp found
          exact ⟨rfl, by simp [absent, Ne.symm same]⟩
        · rintro ⟨whole, absent⟩
          obtain ⟨rfl, rfl⟩ := List.cons.inj whole
          have later : separator ∉ before := fun member => absent (.tail _ member)
          exact ⟨(before, behind), ih.mpr ⟨rfl, later⟩, rfl⟩

theorem splitAround?_eq_none_iff {separator : UInt8} {bytes : Bytes} :
    splitAround? separator bytes = none ↔ separator ∉ bytes := by
  induction bytes with
  | nil => simp [splitAround?]
  | cons first rest ih =>
    by_cases same : first = separator
    · simp [splitAround?_cons, same]
    · simp [splitAround?_cons, same, ih, Ne.symm same]

end SqlFixture.Scan
