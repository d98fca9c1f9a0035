import SqlFixture.Glob.Class
import SqlFixture.Text.CodeRange

/-
**The characters of a class as ranges.**

A class can change only at its edges: where one of its bounds begins and behind where one ends.
Between two edges that follow each other either all code points belong to it or none does. So one
look at each stretch between edges is enough to find all of its characters.

* `CharClass.contains_eq_of_edges`: a class does not tell apart what no edge divides;
* `CharClass.extent`: the characters of a class as ranges that do not touch;
* `CharClass.covers_extent`: these ranges hold the characters of the class and no others.
-/

namespace SqlFixture.Glob.CharClass

/-- The code points where a class may begin or end. -/
def edges : CharClass → List Nat
  | ranges bounds => bounds.flatMap fun bound => [bound.1.toNat, bound.2.toNat + 1]
  | difference base removed => base.edges ++ removed.edges
  | complement base => base.edges

/-- A class does not tell apart two characters that lie on the same side of all its edges. -/
theorem contains_eq_of_edges (set : CharClass) (first second : Char)
    (same : ∀ edge ∈ set.edges, edge ≤ first.toNat ↔ edge ≤ second.toNat) :
    set.contains first = set.contains second := by
  induction set with
  | ranges bounds =>
    rw [contains, contains, Bool.eq_iff_iff, List.any_eq_true, List.any_eq_true]
    refine exists_congr fun bound => and_congr_right fun member => ?_
    have begins := same bound.1.toNat (List.mem_flatMap.mpr ⟨bound, member, by simp⟩)
    have ends := same (bound.2.toNat + 1) (List.mem_flatMap.mpr ⟨bound, member, by simp⟩)
    have order (low high : Char) : low ≤ high ↔ low.toNat ≤ high.toNat := Iff.rfl
    simp only [Bool.and_eq_true, decide_eq_true_eq, order]
    omega
  | difference base removed ihBase ihRemoved =>
    simp only [contains]
    rw [ihBase fun edge member => same edge (List.mem_append_left _ member),
      ihRemoved fun edge member => same edge (List.mem_append_right _ member)]
  | complement base ih => simp only [contains, ih same]

/-- Puts an edge in its place among edges in increasing order, if it is new. -/
def withEdge (edge : Nat) : List Nat → List Nat
  | [] => [edge]
  | first :: later =>
    if edge < first then edge :: first :: later
    else if edge = first then first :: later
    else first :: withEdge edge later

/-- The edges in increasing order, with those of the characters: no surrogate is one. -/
def sortedEdges (set : CharClass) : List Nat :=
  set.edges.foldr withEdge [0, 0xD800, 0xE000, 0x110000]

/-- The stretches between edges that follow each other, without the surrogates. -/
def stretches (set : CharClass) : List CodeRange :=
  let edges := set.sortedEdges
  ((edges.zip edges.tail).filter fun stretch => stretch.1 ≠ 0xD800).map fun stretch =>
    ⟨stretch.1, stretch.2 - 1⟩

/-- The characters of a class as ranges that do not touch, in increasing order. -/
def extent (set : CharClass) : List CodeRange :=
  CodeRange.joined (set.stretches.filter fun stretch =>
    set.contains (Char.ofNat stretch.first))

/-! ### Edges in order -/

theorem mem_withEdge {edge other : Nat} {edges : List Nat} :
    other ∈ withEdge edge edges ↔ other = edge ∨ other ∈ edges := by
  induction edges with
  | nil => simp [withEdge]
  | cons first later ih =>
    simp only [withEdge]
    split
    · exact List.mem_cons
    · split
      · next equal => simp [equal]
      · rw [List.mem_cons, ih, List.mem_cons]
        exact or_left_comm

theorem pairwise_withEdge {edge : Nat} {edges : List Nat} (sorted : edges.Pairwise (· < ·)) :
    (withEdge edge edges).Pairwise (· < ·) := by
  induction edges with
  | nil => exact List.pairwise_singleton _ _
  | cons first later ih =>
    have ⟨behind, rest⟩ := List.pairwise_cons.mp sorted
    simp only [withEdge]
    split
    · next before =>
      refine List.pairwise_cons.mpr ⟨fun other member => ?_, sorted⟩
      rcases List.mem_cons.mp member with rfl | member
      · exact before
      · exact Nat.lt_trans before (behind other member)
    · split
      · exact sorted
      · refine List.pairwise_cons.mpr ⟨fun other member => ?_, ih rest⟩
        rcases mem_withEdge.mp member with rfl | member
        · omega
        · exact behind other member

theorem mem_sortedEdges {set : CharClass} {edge : Nat} :
    edge ∈ set.sortedEdges ↔ edge ∈ set.edges ∨ edge ∈ [0, 0xD800, 0xE000, 0x110000] := by
  rw [sortedEdges]
  induction set.edges with
  | nil => simp
  | cons first later ih => rw [List.foldr_cons, mem_withEdge, ih, ← or_assoc, ← List.mem_cons]

theorem pairwise_sortedEdges (set : CharClass) : set.sortedEdges.Pairwise (· < ·) := by
  rw [sortedEdges]
  induction set.edges with
  | nil => decide
  | cons first later ih => exact pairwise_withEdge ih

/-- A number between two edges lies between two that follow each other. -/
theorem exists_mem_zip_tail {edges : List Nat} {code : Nat} {first : Nat}
    (begins : edges.head? = some first) (below : first ≤ code)
    (above : ∃ edge ∈ edges, code < edge) :
    ∃ stretch ∈ edges.zip edges.tail, stretch.1 ≤ code ∧ code < stretch.2 := by
  induction edges generalizing first with
  | nil => simp at begins
  | cons edge later ih =>
    obtain rfl : edge = first := by simpa using begins
    cases later with
    | nil => simp only [List.mem_singleton, exists_eq_left] at above; omega
    | cons next rest =>
      by_cases inside : code < next
      · exact ⟨(edge, next), by simp, below, inside⟩
      · obtain ⟨last, member, beyond⟩ := above
        have later_above : ∃ edge ∈ next :: rest, code < edge := by
          rcases List.mem_cons.mp member with rfl | member
          · omega
          · exact ⟨last, member, beyond⟩
        obtain ⟨stretch, among, bounds⟩ := ih rfl (by omega) later_above
        exact ⟨stretch, List.mem_cons_of_mem _ among, bounds⟩

/-- Nothing lies between two edges that follow each other. -/
theorem le_or_le_of_mem_zip_tail {edges : List Nat} (sorted : edges.Pairwise (· < ·))
    {stretch : Nat × Nat} (among : stretch ∈ edges.zip edges.tail) :
    stretch.1 < stretch.2 ∧ ∀ edge ∈ edges, edge ≤ stretch.1 ∨ stretch.2 ≤ edge := by
  induction edges with
  | nil => simp at among
  | cons first later ih =>
    have ⟨behind, rest⟩ := List.pairwise_cons.mp sorted
    cases later with
    | nil => simp at among
    | cons next last =>
      have ⟨beyond, _⟩ := List.pairwise_cons.mp rest
      rcases List.mem_cons.mp among with rfl | inside
      · refine ⟨behind next List.mem_cons_self, fun edge member => ?_⟩
        rcases List.mem_cons.mp member with rfl | member
        · exact .inl (Nat.le_refl _)
        · rcases List.mem_cons.mp member with rfl | member
          · exact .inr (Nat.le_refl _)
          · exact .inr (Nat.le_of_lt (beyond edge member))
      · have ⟨order, divides⟩ := ih rest inside
        refine ⟨order, fun edge member => ?_⟩
        rcases List.mem_cons.mp member with rfl | member
        · exact .inl (Nat.le_of_lt (behind stretch.1 (List.of_mem_zip inside).1))
        · exact divides edge member

/-- No edge lies inside the surrogates or behind the last character. -/
theorem edge_bounds {set : CharClass} {edge : Nat} (member : edge ∈ set.edges) :
    (edge ≤ 0xD800 ∨ 0xE000 ≤ edge) ∧ edge ≤ 0x110000 := by
  induction set with
  | ranges bounds =>
    obtain ⟨bound, _, ends⟩ := List.mem_flatMap.mp member
    have first : bound.1.toNat < 0xD800 ∨ 0xDFFF < bound.1.toNat ∧ bound.1.toNat < 0x110000 :=
      bound.1.valid
    have last : bound.2.toNat < 0xD800 ∨ 0xDFFF < bound.2.toNat ∧ bound.2.toNat < 0x110000 :=
      bound.2.valid
    rcases List.mem_cons.mp ends with rfl | ends
    · omega
    · rcases List.mem_singleton.mp ends with rfl
      omega
  | difference base removed ihBase ihRemoved =>
    exact (List.mem_append.mp member).elim ihBase ihRemoved
  | complement base ih => exact ih member

/-! ### The extent of a class -/

/-- A stretch begins with a character, does not end before it begins, and its characters are all
alike. -/
theorem mem_stretches {set : CharClass} {stretch : CodeRange} (member : stretch ∈ set.stretches) :
    stretch.first.isValidChar ∧ stretch.first ≤ stretch.last ∧
      ∀ character : Char, stretch.holds character.toNat →
        set.contains (Char.ofNat stretch.first) = set.contains character := by
  obtain ⟨⟨low, high⟩, among, rfl⟩ := List.mem_map.mp member
  obtain ⟨among, bounded⟩ := List.mem_filter.mp among
  have no_surrogate : low ≠ 0xD800 := by simpa using bounded
  have stretch_bounds := le_or_le_of_mem_zip_tail (pairwise_sortedEdges set) among
  have order : low < high := stretch_bounds.1
  have divides : ∀ edge ∈ set.sortedEdges, edge ≤ low ∨ high ≤ edge := stretch_bounds.2
  have edge_cases : ∀ edge ∈ set.sortedEdges,
      (edge ≤ 0xD800 ∨ 0xE000 ≤ edge) ∧ edge ≤ 0x110000 := by
    intro edge member
    rcases mem_sortedEdges.mp member with edge | edge
    · exact edge_bounds edge
    · simp only [List.mem_cons, List.not_mem_nil, or_false] at edge
      omega
  have low_cases := edge_cases low (List.of_mem_zip among).1
  have high_cases := edge_cases high (List.mem_of_mem_tail (List.of_mem_zip among).2)
  have valid : low.isValidChar := by
    simp only [Nat.isValidChar]
    omega
  refine ⟨valid, Nat.le_sub_one_of_lt order, fun character inside => ?_⟩
  refine contains_eq_of_edges set _ _ fun edge member => ?_
  have side := divides edge (mem_sortedEdges.mpr (.inl member))
  rw [toNat_ofNat_of_isValid valid]
  simp only [CodeRange.holds, Bool.and_eq_true, decide_eq_true_eq] at inside
  omega

theorem exists_mem_stretches (set : CharClass) (character : Char) :
    ∃ stretch ∈ set.stretches, stretch.holds character.toNat := by
  have valid : character.toNat < 0xD800 ∨ 0xDFFF < character.toNat ∧ character.toNat < 0x110000 :=
    character.valid
  have sorted := pairwise_sortedEdges set
  have zero_among : 0 ∈ set.sortedEdges := mem_sortedEdges.mpr (.inr (by simp))
  have begins : set.sortedEdges.head? = some 0 := by
    cases edges : set.sortedEdges with
    | nil => simp [edges] at zero_among
    | cons first later =>
      rw [edges] at sorted zero_among
      rcases List.mem_cons.mp zero_among with rfl | among
      · rfl
      · have := (List.pairwise_cons.mp sorted).1 0 among; omega
  have ends : ∃ edge ∈ set.sortedEdges, character.toNat < edge :=
    ⟨0x110000, mem_sortedEdges.mpr (.inr (by simp)), by omega⟩
  obtain ⟨⟨low, high⟩, among, bounds⟩ := exists_mem_zip_tail begins (Nat.zero_le _) ends
  have inside : low ≤ character.toNat ∧ character.toNat < high := bounds
  have gap : 0xE000 ≤ low ∨ high ≤ 0xE000 :=
    (le_or_le_of_mem_zip_tail sorted among).2 0xE000 (mem_sortedEdges.mpr (.inr (by simp)))
  have no_surrogate : low ≠ 0xD800 := by omega
  refine ⟨⟨low, high - 1⟩, List.mem_map.mpr
    ⟨(low, high), List.mem_filter.mpr ⟨among, by simpa using no_surrogate⟩, rfl⟩, ?_⟩
  simp only [CodeRange.holds, Bool.and_eq_true, decide_eq_true_eq]
  omega

/-- The extent of a class holds its characters and no others. -/
theorem covers_extent (set : CharClass) (character : Char) :
    CodeRange.covers set.extent character.toNat = set.contains character := by
  rw [extent, CodeRange.covers_joined fun stretch member =>
    (mem_stretches (List.mem_filter.mp member).1).2.1]
  rw [Bool.eq_iff_iff, CodeRange.covers, List.any_eq_true]
  constructor
  · rintro ⟨stretch, member, inside⟩
    obtain ⟨among, belongs⟩ := List.mem_filter.mp member
    rw [← (mem_stretches among).2.2 character inside]
    exact belongs
  · intro belongs
    obtain ⟨stretch, among, inside⟩ := exists_mem_stretches set character
    refine ⟨stretch, List.mem_filter.mpr ⟨among, ?_⟩, inside⟩
    rw [(mem_stretches among).2.2 character inside]
    exact belongs

/-- Neighbours become one range. -/
example : extent (ranges [('c', 'd'), ('a', 'a'), ('b', 'b')]) = [⟨0x61, 0x64⟩] := by
  decide +kernel

/-- What is taken away divides a range. -/
example : extent (difference (ranges [('a', 'z')]) (ranges [('m', 'm')])) =
    [⟨0x61, 0x6C⟩, ⟨0x6E, 0x7A⟩] := by
  decide +kernel

/-- A complement leaves out the surrogates. -/
example : extent (complement (ranges [('a', 'z')])) =
    [⟨0, 0x60⟩, ⟨0x7B, 0xD7FF⟩, ⟨0xE000, 0x10FFFF⟩] := by
  decide +kernel

end SqlFixture.Glob.CharClass
