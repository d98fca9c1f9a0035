import SqlFixture.Proofs.Meaning

/-
**The same chunks further behind, under more definitions.**

Where a chunk stands shows in the positions of its statement and nowhere else. Of the context before
it only the keys matter that it names. So chunks may be read behind another stretch of a fixture and
under further definitions, and come to the same, as long as no key is defined on both sides.

* `Chunk.behind`, `Statement.behind`: the same further behind;
* `Remainder.cutting_behind`: a remainder further behind falls into the same chunks;
* `Meaning.effect?_of_isUnion`: a meaning comes to the same under further definitions;
* `Progress.take_behind`, `Progress.takeAll_behind`: so do chunks, further behind.
-/

namespace SqlFixture

open Directive

/-! ### Further behind -/

/-- The chunk with a stretch in front that ends at `offset`. -/
def Chunk.behind (offset : Position) (chunk : Chunk) : Chunk :=
  ⟨offset + chunk.left, offset + chunk.right, chunk.source⟩

/-- The statement with a stretch in front that ends at `offset`. -/
def Statement.behind (offset : Position) (statement : Statement) : Statement :=
  { statement with left := offset + statement.left, right := offset + statement.right }

namespace Remainder

variable {delimiter : Delimiter} {remainder rest : Remainder} {chunk : Chunk} (offset : Position)

/-- The remainder with a stretch in front that ends at `offset`. -/
def behind (remainder : Remainder) : Remainder := ⟨offset + remainder.cursor, remainder.bytes⟩

theorem skipBlank_behind (remainder : Remainder) :
    (remainder.behind offset).skipBlank = remainder.skipBlank.behind offset := by
  simp only [behind, skipBlank, Position.add_assoc]

theorem cut?_behind (cut : remainder.cut? delimiter = some (chunk, rest)) :
    (remainder.behind offset).cut? delimiter = some (chunk.behind offset, rest.behind offset) := by
  obtain ⟨moved, left, source, right, cursor, bytes⟩ := cut?_eq_some_iff.mp cut
  refine cut?_eq_some_iff.mpr ⟨moved, congrArg (offset + ·) left, source, ?_,
    congrArg (offset + ·) cursor, bytes⟩
  show offset + chunk.right = offset + remainder.cursor + _
  rw [right, Position.add_assoc]
  rfl

/-- A remainder further behind falls into the same chunks. -/
theorem cutting_behind (remainder : Remainder) :
    (remainder.behind offset).cutting delimiter =
      ⟨(remainder.cutting delimiter).chunks.map (Chunk.behind offset),
        (remainder.cutting delimiter).stall.map (offset + ·)⟩ := by
  induction remainder using cutting_induction delimiter with
  | blank remainder blank =>
    have still : (remainder.behind offset).skipBlank.bytes = [] := by
      rw [skipBlank_behind]
      exact blank
    rw [cutting_of_blank blank, cutting_of_blank still]
    rfl
  | stall remainder inked stalled =>
    have still : (remainder.behind offset).skipBlank.bytes ≠ [] := by
      rw [skipBlank_behind]
      exact inked
    have mark := cut?_eq_none_iff.mp stalled
    have stuck : (remainder.behind offset).skipBlank.cut? delimiter = none := by
      rw [cut?_eq_none_iff, skipBlank_behind]
      exact mark
    rw [cutting_of_stall inked stalled, cutting_of_stall still stuck, skipBlank_behind]
    rfl
  | cut remainder chunk rest inked cut ih =>
    have still : (remainder.behind offset).skipBlank.bytes ≠ [] := by
      rw [skipBlank_behind]
      exact inked
    have moved : (remainder.behind offset).skipBlank.cut? delimiter =
        some (chunk.behind offset, rest.behind offset) := by
      rw [skipBlank_behind]
      exact cut?_behind offset cut
    rw [cutting_of_cut inked cut, cutting_of_cut still moved, ih]
    rfl

end Remainder

/-! ### Under more definitions -/

theorem Meaning.effect?_of_isUnion {base alone joined : Context} {meaning : Meaning}
    {effect : Context × Option Action} (union : joined.IsUnion base alone)
    (apart : base.Apart effect.1) (allowed : meaning.effect? alone = some effect) :
    ∃ context, meaning.effect? joined = some (context, effect.2) ∧
      context.IsUnion base effect.1 := by
  cases meaning with
  | comment | exception query substring | plain sql =>
    cases allowed
    exact ⟨joined, rfl, union⟩
  | definition key query =>
    obtain ⟨next, defined, rfl⟩ := Option.map_eq_some_iff.mp allowed
    obtain ⟨fresh, rfl⟩ := Context.define_eq_some_iff.mp defined
    have bound : (alone.insert key query).find? key = some query :=
      Dictionary.find?_insert_self alone key query
    have elsewhere : base.find? key = none := by
      refine Dictionary.find?_eq_none_iff.mpr fun common => ?_
      have absent := Dictionary.find?_eq_none_iff.mpr (apart key common)
      rw [bound] at absent
      cases absent
    have new : joined.find? key = none := union.find?_eq_none.mpr ⟨elsewhere, fresh⟩
    refine ⟨joined.insert key query, ?_, union.insert new query⟩
    rw [effect?, Context.define_eq_some_iff.mpr ⟨new, rfl⟩]
    rfl
  | assertion key expected =>
    obtain ⟨query, bound, rfl⟩ := Option.map_eq_some_iff.mp allowed
    refine ⟨joined, ?_, union⟩
    rw [effect?, union.find?_of_right bound]
    rfl

theorem Meaning.within_of_effect? {context : Context} {meaning : Meaning}
    {effect : Context × Option Action} (allowed : meaning.effect? context = some effect) :
    context.Within effect.1 := by
  cases meaning with
  | comment | exception query substring | plain sql =>
    cases allowed
    exact .refl _
  | definition key query =>
    obtain ⟨next, defined, rfl⟩ := Option.map_eq_some_iff.mp allowed
    obtain ⟨fresh, rfl⟩ := Context.define_eq_some_iff.mp defined
    exact Dictionary.within_insert fresh query
  | assertion key expected =>
    obtain ⟨query, bound, rfl⟩ := Option.map_eq_some_iff.mp allowed
    exact .refl _

namespace Progress

variable {alone joined next : Progress} {base : Context}

/-- Definitions are never taken back. -/
theorem within_of_take {chunk : Chunk} (taken : alone.take standard chunk = .ok next) :
    alone.context.Within next.context := by
  obtain ⟨_, _, _, _, _, allowed, rfl⟩ := take_eq_ok_iff_means.mp taken
  exact Meaning.within_of_effect? allowed

theorem within_of_takeAll {chunks : List Chunk} (taken : alone.takeAll standard chunks = .ok next) :
    alone.context.Within next.context := by
  induction chunks generalizing alone with
  | nil =>
    cases taken
    exact .refl _
  | cons chunk chunks ih =>
    rw [takeAll] at taken
    cases here : alone.take standard chunk with
    | error cause => rw [here] at taken; cases taken
    | ok between =>
      rw [here] at taken
      exact (within_of_take here).trans (ih taken)

variable (offset : Position) (union : joined.context.IsUnion base alone.context)
  (apart : base.Apart next.context)

include union apart

/-- A chunk further behind and under further definitions adds the same, further behind. -/
theorem take_behind {chunk : Chunk} (taken : alone.take standard chunk = .ok next) :
    ∃ (added : List Statement) (context : Context), next.recorded = added ++ alone.recorded ∧
      joined.take standard (chunk.behind offset) =
        .ok ⟨context, added.map (Statement.behind offset) ++ joined.recorded⟩ ∧
      context.IsUnion base next.context := by
  obtain ⟨text, meaning, ⟨reached, action⟩, encoded, means, allowed, rfl⟩ :=
    take_eq_ok_iff_means.mp taken
  obtain ⟨context, alike, joins⟩ := Meaning.effect?_of_isUnion union apart allowed
  refine ⟨_, context, rfl, ?_, joins⟩
  refine take_eq_ok_iff_means.mpr ⟨text, meaning, _, encoded, means, alike, ?_⟩
  cases action <;> rfl

/-- **Chunks further behind and under further definitions add the same**, further behind. -/
theorem takeAll_behind {chunks : List Chunk} (taken : alone.takeAll standard chunks = .ok next) :
    ∃ (added : List Statement) (context : Context), next.recorded = added ++ alone.recorded ∧
      joined.takeAll standard (chunks.map (Chunk.behind offset)) =
        .ok ⟨context, added.map (Statement.behind offset) ++ joined.recorded⟩ ∧
      context.IsUnion base next.context := by
  induction chunks generalizing alone joined with
  | nil =>
    cases taken
    exact ⟨[], joined.context, rfl, rfl, union⟩
  | cons chunk chunks ih =>
    rw [takeAll] at taken
    cases here : alone.take standard chunk with
    | error cause => rw [here] at taken; cases taken
    | ok between =>
      rw [here] at taken
      -- No key of the first chunk is taken either, for definitions are never taken back.
      have still := apart.of_within (within_of_takeAll taken)
      obtain ⟨first, context, firstAdded, firstTaken, joins⟩ := take_behind offset union still here
      let reached : Progress := ⟨context, first.map (Statement.behind offset) ++ joined.recorded⟩
      have joinsHere : reached.context.IsUnion base between.context := joins
      obtain ⟨later, final, laterAdded, laterTaken, joinsAll⟩ := ih joinsHere taken
      refine ⟨later ++ first, final, ?_, ?_, joinsAll⟩
      · rw [laterAdded, firstAdded, List.append_assoc]
      · rw [List.map_cons, takeAll, firstTaken, List.map_append, List.append_assoc]
        exact laterTaken

end Progress

end SqlFixture
