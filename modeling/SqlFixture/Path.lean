/-
**Paths.**

A path is the list of names that lead from a directory to an entry. A written path has slashes
between its parts; some parts, such as the empty one and the dots, are no names.

* `Path.parts`, `Path.joined`: between a text and what stands between its slashes;
* `Path.below?`: the rest of a path behind a directory that it leads through.
-/

namespace SqlFixture

/-- The names on the way from a directory to an entry. -/
abbrev Path := List String

namespace Path

/-- The parts of a text between slashes. -/
def parts (text : String) : List String := (text.toList.splitOn '/').map String.ofList

/-- The names of a path with slashes between. -/
def joined (path : Path) : String := "/".intercalate path

/-- The rest of a path below a directory; `none` for paths elsewhere and for the directory. -/
def below? (directory path : Path) : Option Path :=
  if directory.isPrefixOf path && directory.length < path.length then
    some (path.drop directory.length)
  else none

/-- A path leads through a directory exactly if it is the directory's path with names behind. -/
theorem below?_eq_some_iff {directory path rest : Path} :
    below? directory path = some rest ↔ path = directory ++ rest ∧ rest ≠ [] := by
  unfold below?
  constructor
  · intro found
    split at found
    next within =>
      obtain ⟨leads, longer⟩ := Bool.and_eq_true_iff.mp within
      obtain ⟨behind, rfl⟩ := List.isPrefixOf_iff_prefix.mp leads
      have same : behind = rest := by simpa using found
      subst same
      refine ⟨rfl, fun nothing => ?_⟩
      simp [nothing] at longer
    next => simp at found
  · rintro ⟨rfl, some_left⟩
    have longer : 0 < rest.length := List.length_pos_iff.mpr some_left
    simp [longer]

end Path

end SqlFixture
