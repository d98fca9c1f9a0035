import Mathlib.Data.List.Basic
import SqlFixture.Glob.Match

/-
**What the pieces of a pattern take.**

Which texts a piece takes does not depend on what is behind them. So pieces match a text exactly if
it is put together from texts that they take in order, and a match of two lists of pieces is a match
of the one in front of a match of the other.

* `Piece.Takes`: the texts that a piece takes, one rule for each piece;
* `Piece.mem_rests_iff`: what may be left of a text is what is behind such a text;
* `accepts_cons_iff`, `accepts_append_iff`: a match divides as the pieces do.
-/

namespace SqlFixture.Glob

/-- Names with a slash behind each of them. -/
def slashed (names : List (List Char)) : List Char := names.flatMap (· ++ ['/'])

theorem slashed_cons (name : List Char) (names : List (List Char)) :
    slashed (name :: names) = name ++ '/' :: slashed names := by
  simp [slashed]

/-- Names of directories: none is empty or holds a slash. -/
def AreNames (names : List (List Char)) : Prop := ∀ name ∈ names, name ≠ [] ∧ '/' ∉ name

theorem areNames_nil : AreNames [] := List.forall_mem_nil _

theorem areNames_cons {name : List Char} {names : List (List Char)} :
    AreNames (name :: names) ↔ (name ≠ [] ∧ '/' ∉ name) ∧ AreNames names :=
  List.forall_mem_cons

/-- Names stand in front of a text if there are none, or if there is a first one. -/
theorem exists_areNames_iff {text rest : List Char} :
    (∃ names, AreNames names ∧ text = slashed names ++ rest) ↔
      text = rest ∨ ∃ name names, name ≠ [] ∧ '/' ∉ name ∧ AreNames names ∧
        text = name ++ '/' :: (slashed names ++ rest) := by
  constructor
  · rintro ⟨names, named, rfl⟩
    cases names with
    | nil => exact .inl rfl
    | cons name names =>
      obtain ⟨⟨some_name, inside⟩, named⟩ := areNames_cons.mp named
      refine .inr ⟨name, names, some_name, inside, named, ?_⟩
      rw [slashed_cons, List.append_assoc, List.cons_append]
  · rintro (rfl | ⟨name, names, some_name, inside, named, rfl⟩)
    · exact ⟨[], areNames_nil, rfl⟩
    · refine ⟨name :: names, areNames_cons.mpr ⟨⟨some_name, inside⟩, named⟩, ?_⟩
      rw [slashed_cons, List.append_assoc, List.cons_append]

/-- The texts that a piece takes. -/
def Piece.Takes : Piece → List Char → Prop
  | .character value, text => text = [value]
  | .anyCharacter, text => ∃ value, value ≠ '/' ∧ text = [value]
  | .anyRun, text => '/' ∉ text
  | .oneOf set, text => ∃ value, set.contains value = true ∧ text = [value]
  | .directories, text => ∃ names, AreNames names ∧ text = slashed names
  | .anyLine, text => '\n' ∉ text

/-! ### What is left of a text -/

theorem mem_oneRest_iff {keep : Char → Bool} {text rest : List Char} :
    rest ∈ oneRest keep text ↔ ∃ value, keep value = true ∧ text = value :: rest := by
  cases text with
  | nil => simp [oneRest]
  | cons first later =>
    cases kept : keep first with
    | false =>
      simp only [oneRest, kept, Bool.false_eq_true, if_false, List.not_mem_nil, false_iff]
      rintro ⟨value, holds, same⟩
      obtain ⟨rfl, _⟩ := List.cons.inj same
      rw [kept] at holds
      cases holds
    | true =>
      simp only [oneRest, kept, if_true, List.mem_singleton]
      constructor
      · rintro rfl
        exact ⟨first, kept, rfl⟩
      · rintro ⟨value, _, same⟩
        exact (List.cons.inj same).2.symm

theorem mem_runRests_iff {keep : Char → Bool} {text rest : List Char} :
    rest ∈ runRests keep text ↔ ∃ run, (∀ value ∈ run, keep value = true) ∧ text = run ++ rest := by
  induction text with
  | nil =>
    rw [runRests, List.mem_singleton]
    constructor
    · rintro rfl
      exact ⟨[], List.forall_mem_nil _, rfl⟩
    · rintro ⟨run, _, same⟩
      exact (List.append_eq_nil_iff.mp same.symm).2
  | cons first later ih =>
    rw [runRests, List.mem_cons]
    constructor
    · rintro (rfl | behind)
      · exact ⟨[], List.forall_mem_nil _, rfl⟩
      · split at behind
        next kept =>
          obtain ⟨run, keeps, rfl⟩ := ih.mp behind
          exact ⟨first :: run, List.forall_mem_cons.mpr ⟨kept, keeps⟩, rfl⟩
        next => cases behind
    · rintro ⟨run, keeps, same⟩
      cases run with
      | nil => exact .inl same.symm
      | cons value run =>
        obtain ⟨rfl, rfl⟩ := List.cons.inj same
        obtain ⟨kept, keeps⟩ := List.forall_mem_cons.mp keeps
        rw [if_pos kept]
        exact .inr (ih.mpr ⟨run, keeps, rfl⟩)

/-- Behind whole directory names a name ends, which is empty only if it began before the text, and
further names follow it. -/
theorem mem_directoryRests_iff {begun : Bool} {text rest : List Char} :
    rest ∈ directoryRests begun text ↔
      ∃ name names, (begun = true ∨ name ≠ []) ∧ '/' ∉ name ∧ AreNames names ∧
        text = name ++ '/' :: (slashed names ++ rest) := by
  induction text generalizing begun with
  | nil =>
    refine ⟨fun behind => absurd behind List.not_mem_nil, ?_⟩
    rintro ⟨name, names, _, _, _, same⟩
    exact absurd same (List.append_ne_nil_of_right_ne_nil name (List.cons_ne_nil _ _)).symm
  | cons first later ih =>
    rw [directoryRests]
    by_cases slash : first = '/'
    · subst slash
      rw [if_pos rfl]
      cases begun with
      | false =>
        refine ⟨fun behind => absurd behind List.not_mem_nil, ?_⟩
        rintro ⟨name, names, some_name, inside, _, same⟩
        have named : name ≠ [] := some_name.resolve_left Bool.false_ne_true
        obtain ⟨head, tail, rfl⟩ := List.exists_cons_of_ne_nil named
        exact absurd ((List.cons.inj same).1 ▸ List.mem_cons_self) inside
      | true =>
        have names_behind : rest ∈ later :: directoryRests false later ↔
            ∃ names, AreNames names ∧ later = slashed names ++ rest := by
          rw [exists_areNames_iff, List.mem_cons, ih, eq_comm]
          simp only [Bool.false_eq_true, false_or]
        rw [if_pos rfl, names_behind]
        constructor
        · rintro ⟨names, named, rfl⟩
          exact ⟨[], names, .inl rfl, List.not_mem_nil, named, rfl⟩
        · rintro ⟨name, names, _, inside, named, same⟩
          cases name with
          | nil => exact ⟨names, named, (List.cons.inj same).2⟩
          | cons head tail => exact absurd ((List.cons.inj same).1 ▸ List.mem_cons_self) inside
    · rw [if_neg slash, ih]
      constructor
      · rintro ⟨name, names, _, inside, named, rfl⟩
        refine ⟨first :: name, names, .inr (List.cons_ne_nil _ _), ?_, named, rfl⟩
        exact List.not_mem_cons_of_ne_of_not_mem (Ne.symm slash) inside
      · rintro ⟨name, names, _, inside, named, same⟩
        cases name with
        | nil => exact absurd (List.cons.inj same).1 slash
        | cons head name =>
          obtain ⟨rfl, rfl⟩ := List.cons.inj same
          exact ⟨name, names, .inl rfl, List.not_mem_of_not_mem_cons inside, named, rfl⟩

theorem mem_runRests_bne_iff {limit : Char} {text rest : List Char} :
    rest ∈ runRests (· != limit) text ↔ ∃ run, limit ∉ run ∧ text = run ++ rest := by
  rw [mem_runRests_iff]
  refine exists_congr fun run => and_congr_left' ?_
  constructor
  · exact fun keeps inside => bne_iff_ne.mp (keeps limit inside) rfl
  · exact fun absent value member => bne_iff_ne.mpr fun same => absent (same ▸ member)

/-- What may be left of a text behind a piece is what is behind a text that the piece takes. -/
theorem Piece.mem_rests_iff {piece : Piece} {text rest : List Char} :
    rest ∈ piece.rests text ↔ ∃ front, piece.Takes front ∧ text = front ++ rest := by
  cases piece with
  | character value => simp [rests, Takes, mem_oneRest_iff]
  | anyCharacter => simp [rests, Takes, mem_oneRest_iff]
  | oneOf set => simp [rests, Takes, mem_oneRest_iff]
  | anyRun => exact mem_runRests_bne_iff
  | anyLine => exact mem_runRests_bne_iff
  | directories =>
    have names_behind : rest ∈ text :: directoryRests false text ↔
        ∃ names, AreNames names ∧ text = slashed names ++ rest := by
      rw [exists_areNames_iff, List.mem_cons, mem_directoryRests_iff, eq_comm]
      simp only [Bool.false_eq_true, false_or]
    rw [rests, names_behind]
    constructor
    · rintro ⟨names, named, same⟩
      exact ⟨slashed names, ⟨names, named, rfl⟩, same⟩
    · rintro ⟨_, ⟨names, named, rfl⟩, same⟩
      exact ⟨names, named, same⟩

/-! ### Matches -/

theorem accepts_nil_iff {text : List Char} : accepts [] text = true ↔ text = [] :=
  List.isEmpty_iff

theorem accepts_cons_iff {piece : Piece} {pieces : List Piece} {text : List Char} :
    accepts (piece :: pieces) text = true ↔
      ∃ front back, piece.Takes front ∧ accepts pieces back = true ∧ text = front ++ back := by
  rw [accepts, List.any_eq_true]
  constructor
  · rintro ⟨back, behind, matched⟩
    obtain ⟨front, takes, same⟩ := Piece.mem_rests_iff.mp behind
    exact ⟨front, back, takes, matched, same⟩
  · rintro ⟨front, back, takes, matched, same⟩
    exact ⟨back, Piece.mem_rests_iff.mpr ⟨front, takes, same⟩, matched⟩

theorem accepts_append_iff {first second : List Piece} {text : List Char} :
    accepts (first ++ second) text = true ↔
      ∃ front back, accepts first front = true ∧ accepts second back = true ∧
        text = front ++ back := by
  induction first generalizing text with
  | nil =>
    constructor
    · exact fun matched => ⟨[], text, accepts_nil_iff.mpr rfl, matched, rfl⟩
    · rintro ⟨front, back, nothing, matched, rfl⟩
      rw [accepts_nil_iff.mp nothing]
      exact matched
  | cons piece first ih =>
    simp only [List.cons_append, accepts_cons_iff, ih]
    constructor
    · rintro ⟨taken, _, takes, ⟨front, back, earlier, later, rfl⟩, rfl⟩
      exact ⟨taken ++ front, back, ⟨taken, front, takes, earlier, rfl⟩, later,
        (List.append_assoc ..).symm⟩
    · rintro ⟨_, back, ⟨taken, front, takes, earlier, rfl⟩, later, rfl⟩
      exact ⟨taken, front ++ back, takes, ⟨front, back, earlier, later, rfl⟩,
        List.append_assoc ..⟩

end SqlFixture.Glob
