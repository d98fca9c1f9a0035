import Mathlib.Data.List.Basic
import SqlFixture.Proofs.Defining

/-
**The grammars of assertions and exceptions.**

An assertion is trimmed at both ends and then divided at its first space. So the space can be
neither the first nor the last byte of what is divided: key and rows are never empty, and a key may
even hold tabs. An exception is not trimmed, and is divided at its first newline.

* `Scan.isTrimmed_around_iff`: when bytes around a space are trimmed;
* `Directive.IsAssertion`, `IsAssertion.unique`: the grammar of assertions, read in one way;
* `Directive.IsException`: the grammar of exceptions;
* `Directive.IsDefinition.isAssertion`: whatever key a definition has, an assertion may name it;
* `Directive.checks_exact`: both directives act exactly on their grammars, and every key that is
  bound can be asserted.
-/

namespace SqlFixture

open Utf8

/-! ### Trimmed bytes around a space -/

/-- Whether bytes are rows that can be expected: something, without padding at its end. -/
def Scan.IsExpected (rows : Bytes) : Prop :=
  rows ≠ [] ∧ ∀ last ∈ rows.getLast?, isPadding last = false

theorem Scan.isExpected_of_getLast? {rows : Bytes} {last : UInt8}
    (ends : rows.getLast? = some last) (solid : isPadding last = false) : IsExpected rows := by
  constructor
  · rintro rfl
    cases ends
  · intro other otherEnds
    rw [Option.mem_def, ends] at otherEnds
    rwa [← Option.some.inj otherEnds]

/-- Around its first space, what is trimmed has a word that begins with no tab, and rows. -/
theorem Scan.isTrimmed_around_iff {word rows : Bytes} (inWord : space ∉ word) :
    IsTrimmed (word ++ space :: rows) ↔ word ≠ [] ∧ word.head? ≠ some tab ∧ IsExpected rows := by
  have ends : (∀ last ∈ (word ++ space :: rows).getLast?, isPadding last = false) ↔
      IsExpected rows := by
    rw [List.getLast?_append_cons, IsExpected]
    cases rows with
    | nil =>
      constructor
      · intro solid
        exact nomatch solid space rfl
      · rintro ⟨something, _⟩
        exact absurd rfl something
    | cons byte rows =>
      rw [List.getLast?_cons_cons]
      exact ⟨fun solid => ⟨List.cons_ne_nil byte rows, solid⟩, fun expected => expected.2⟩
  rw [IsTrimmed, ends, ← and_assoc]
  refine and_congr_left fun _ => ?_
  cases word with
  | nil =>
    constructor
    · intro solid
      exact nomatch solid space rfl
    · rintro ⟨something, _⟩
      exact absurd rfl something
  | cons first word =>
    have noSpace : first ≠ space := fun same => inWord (same ▸ List.mem_cons_self)
    simp [isPadding, noSpace]

namespace Directive

open StatementError

variable {context next later : Context} {body key expected probe query rows word : Bytes}
  {cause : StatementError}

/-! ### Assertions -/

/-- Whether bytes are the keyword, a key, one space and the expected rows, with padding around. The
key is not empty, has no space in it and begins with no tab; padding in front of the rows and inside
of them belongs to them. -/
def IsAssertion (probe key expected : Bytes) : Prop :=
  ∃ before behind,
    probe = asciiBytes "assert " ++ (before ++ key ++ Scan.space :: expected ++ behind) ∧
    before.all Scan.isPadding ∧ behind.all Scan.isPadding ∧
    key ≠ [] ∧ Scan.space ∉ key ∧ key.head? ≠ some Scan.tab ∧ Scan.IsExpected expected

theorem isAssertion_iff :
    IsAssertion probe key expected ↔ ∃ body, probe = asciiBytes "assert " ++ body ∧
      Scan.splitAround? Scan.space (Scan.trim body) = some (key, expected) := by
  simp only [Scan.splitAround?_eq_some_iff, Scan.trim_eq_iff]
  constructor
  · rintro ⟨before, behind, whole, paddingBefore, paddingBehind, someKey, inWord, noTab, isRows⟩
    refine ⟨_, whole, ⟨?_, before, behind, ?_, paddingBefore, paddingBehind⟩, inWord⟩
    · exact (Scan.isTrimmed_around_iff inWord).mpr ⟨someKey, noTab, isRows⟩
    · rw [← List.append_assoc before]
  · rintro ⟨_, rfl, ⟨trimmed, before, behind, rfl, paddingBefore, paddingBehind⟩, inWord⟩
    obtain ⟨someKey, noTab, isRows⟩ := (Scan.isTrimmed_around_iff inWord).mp trimmed
    refine ⟨before, behind, ?_, paddingBefore, paddingBehind, someKey, inWord, noTab, isRows⟩
    rw [← List.append_assoc before]

/-- **An assertion is read in one way.** -/
theorem IsAssertion.unique {otherKey otherExpected : Bytes}
    (first : IsAssertion probe key expected) (second : IsAssertion probe otherKey otherExpected) :
    key = otherKey ∧ expected = otherExpected := by
  obtain ⟨body, rfl, split⟩ := isAssertion_iff.mp first
  obtain ⟨other, whole, otherSplit⟩ := isAssertion_iff.mp second
  obtain rfl := List.append_cancel_left whole
  exact Prod.mk.inj (Option.some.inj (split.symm.trans otherSplit))

/-- Behind the first space of what is trimmed there are rows. -/
theorem isExpected_of_split
    (split : Scan.splitAround? Scan.space (Scan.trim body) = some (word, rows)) :
    Scan.IsExpected rows := by
  obtain ⟨_, _, _, _, _, _, _, _, isRows⟩ := isAssertion_iff.mpr ⟨body, rfl, split⟩
  exact isRows

theorem assert_eq_action_iff {action : Action} :
    assert context probe = .ok (.action action) ↔
      ∃ key query expected, IsAssertion probe (encode key) (encode expected) ∧
        context.find? key = some query ∧ action = .assert key query expected := by
  rw [assert, keyword_eq_iff (by simp)]
  simp only [assertBody_eq_ok_iff, isAssertion_iff, Outcome.action.injEq]
  constructor
  · rintro ⟨body, whole, key, query, expected, split, _, bound, rfl⟩
    exact ⟨key, query, expected, ⟨body, whole, split⟩, bound, rfl⟩
  · rintro ⟨key, query, expected, ⟨body, whole, split⟩, bound, rfl⟩
    exact ⟨body, whole, key, query, expected, split, (isExpected_of_split split).1, bound, rfl⟩

/-- What can be wrong behind the keyword of an assertion, each with the cause that tells it, in the
order in which it is looked for: there is nothing; there is no space; the key is no text; the key is
not bound; the rows are no text. That there are no rows behind a space is none of it. -/
def assertionFaults (context : Context) (body : Bytes) : List (StatementError → Prop) :=
  [fun cause => Scan.trim body = [] ∧ cause = .assertMissingKey,
   fun cause => Scan.space ∉ Scan.trim body ∧ cause = .assertMissingValue,
   fun cause => ∃ key rows, Scan.splitAround? Scan.space (Scan.trim body) = some (key, rows) ∧
     Unreadable key cause,
   fun cause => ∃ key rows,
     Scan.splitAround? Scan.space (Scan.trim body) = some (encode key, rows) ∧
     context.find? key = none ∧ cause = .assertUndefined key,
   fun cause => ∃ key rows, Scan.splitAround? Scan.space (Scan.trim body) = some (key, rows) ∧
     Unreadable rows cause]

/-- **Nothing is refused for rows that are missing behind a space.** -/
theorem refuseIf_rows_of_split
    (split : Scan.splitAround? Scan.space (Scan.trim body) = some (word, rows)) :
    refuseIf rows.isEmpty .assertMissingValue = .ok () :=
  refuseIf_eq_ok_iff.mpr (List.isEmpty_eq_false_iff.mpr (isExpected_of_split split).1)

theorem assertBody_eq_error_iff :
    assertBody context body = .error cause ↔ FirstOf (assertionFaults context body) cause := by
  unfold assertBody assertionFaults
  refine firstOf_bind (fun other => ?_) fun _ _ => ?_
  · rw [refuseIf_eq_error_iff, List.isEmpty_iff]
  refine firstOf_bind (fun other => ?_) fun ⟨word, rows⟩ found => ?_
  · rw [require_eq_error_iff, Scan.splitAround?_eq_none_iff]
  have split := require_eq_ok_iff.mp found
  simp only [split, Option.some.injEq, Prod.mk.injEq]
  rw [bind_of_ok (refuseIf_rows_of_split split)]
  refine firstOf_bind (fun other => ?_) fun key read => ?_
  · simp only [text_eq_error_iff, and_assoc, exists_and_left, exists_eq_left']
  simp only [eq_encode_iff_of_text read]
  refine firstOf_bind (fun other => ?_) fun query _ => ?_
  · simp only [require_eq_error_iff, and_assoc, exists_and_left, exists_eq_left']
  refine firstOf_bind (fun other => ?_) fun _ _ => firstOf_pure
  · simp only [text_eq_error_iff, and_assoc, exists_and_left, exists_eq_left']

/-! ### Exceptions -/

/-- Whether bytes are the keyword, a text on the first line and a query below, neither of them
empty. -/
def IsException (probe substring query : Bytes) : Prop :=
  probe = asciiBytes "except " ++ (substring ++ newline :: query) ∧
    substring ≠ [] ∧ newline ∉ substring ∧ query ≠ []

theorem except_eq_action_iff {action : Action} :
    except context probe = .ok (.action action) ↔
      ∃ substring query, IsException probe (encode substring) (encode query) ∧
        action = .except query substring := by
  rw [except, keyword_eq_iff (by simp)]
  simp only [exceptBody_eq_ok_iff, Scan.splitAround?_eq_some_iff, Outcome.action.injEq]
  constructor
  · rintro ⟨_, whole, substring, query, ⟨rfl, inLine⟩, someText, someQuery, rfl⟩
    exact ⟨substring, query, ⟨whole, someText, inLine, someQuery⟩, rfl⟩
  · rintro ⟨substring, query, ⟨whole, someText, inLine, someQuery⟩, rfl⟩
    exact ⟨_, whole, substring, query, ⟨rfl, inLine⟩, someText, someQuery, rfl⟩

/-! ### Keys -/

/-- A key that can be bound can be named by an assertion. -/
theorem IsDefinition.isAssertion (definition : IsDefinition probe key query)
    (isRows : Scan.IsExpected expected) :
    IsAssertion (asciiBytes "assert " ++ (key ++ Scan.space :: expected)) key expected := by
  obtain ⟨_, _, _, _, _, someKey, word, _⟩ := definition
  have solid : ∀ byte ∈ key, ¬Scan.isPadding byte = true := List.any_eq_false.mp word
  refine ⟨[], [], ?_, rfl, rfl, someKey, fun inKey => solid _ inKey rfl, fun begins => ?_, isRows⟩
  · rw [List.nil_append, List.append_nil]
  · exact solid _ (List.mem_of_mem_head? begins) rfl

/-- **Assertions and exceptions act exactly if they have the form of their grammars.** An assertion
is read in one way, and answers with the query that is bound to its key; that rows are missing
behind its space is never found, and is none of the faults that are told. An exception answers with
its own query. Whatever key a definition binds, from there on every assertion with this key and with
rows that can be expected answers with its query. -/
theorem checks_exact (context : Context) (probe : Bytes) :
    (∀ action, assert context probe = .ok (.action action) ↔
      ∃ key query expected, IsAssertion probe (encode key) (encode expected) ∧
        context.find? key = some query ∧ action = .assert key query expected) ∧
    (∀ key expected otherKey otherExpected, IsAssertion probe key expected →
      IsAssertion probe otherKey otherExpected → key = otherKey ∧ expected = otherExpected) ∧
    (∀ body word rows, Scan.splitAround? Scan.space (Scan.trim body) = some (word, rows) →
      refuseIf rows.isEmpty .assertMissingValue = .ok ()) ∧
    (∀ cause, assert context probe = .error cause ↔
      ∃ body, probe = asciiBytes "assert " ++ body ∧
        FirstOf (assertionFaults context body) cause) ∧
    (∀ action, except context probe = .ok (.action action) ↔
      ∃ substring query, IsException probe (encode substring) (encode query) ∧
        action = .except query substring) ∧
    ∀ next, define context probe = .ok (.context next) →
      ∃ key query, IsDefinition probe (encode key) (encode query) ∧
        ∀ later : Context, next.Within later → ∀ expected, Scan.IsExpected (encode expected) →
          assert later (asciiBytes "assert " ++ (encode key ++ Scan.space :: encode expected)) =
            .ok (.action (.assert key query expected)) := by
  refine ⟨fun _ => assert_eq_action_iff, fun _ _ _ _ => IsAssertion.unique,
    fun _ _ _ => refuseIf_rows_of_split, fun cause => ?_, fun _ => except_eq_action_iff,
    fun next taken => ?_⟩
  · rw [assert, keyword_eq_iff (by simp)]
    simp only [assertBody_eq_error_iff]
  · obtain ⟨key, query, definition, _, rfl⟩ := define_eq_context_iff.mp taken
    refine ⟨key, query, definition, fun later within expected isRows => ?_⟩
    have bound : later.find? key = some query := within key query (Dictionary.find?_insert_self ..)
    exact assert_eq_action_iff.mpr
      ⟨key, query, expected, definition.isAssertion isRows, bound, rfl⟩

/-- A key between padding is bound, and an assertion of it has rows that begin with a space. -/
theorem checks_exact_of_inner_spaces :
    (∀ action, assert (Dictionary.empty.insert "K" "SELECT 1") (asciiBytes "assert \tK  1 \n2 ") =
      .ok (.action action) ↔ action = .assert "K" "SELECT 1" " 1 \n2") ∧
    ∃ next, define .empty (asciiBytes "define  K\t\nSELECT 1") = .ok (.context next) ∧
      assert next (asciiBytes "assert K  1 \n2") =
        .ok (.action (.assert "K" "SELECT 1" " 1 \n2")) := by
  have isRows : Scan.IsExpected (encode " 1 \n2") :=
    Scan.isExpected_of_getLast? (show (encode " 1 \n2").getLast? = some 0x32 by decide) rfl
  constructor
  · intro action
    obtain ⟨acts, unique, _⟩ :=
      checks_exact (Dictionary.empty.insert "K" "SELECT 1") (asciiBytes "assert \tK  1 \n2 ")
    have assertion : IsAssertion (asciiBytes "assert \tK  1 \n2 ") (encode "K")
        (encode " 1 \n2") :=
      ⟨[Scan.tab], [Scan.space], rfl, rfl, rfl, by decide, by decide, by decide, isRows⟩
    rw [acts]
    constructor
    · rintro ⟨key, query, expected, other, bound, rfl⟩
      obtain ⟨sameKey, sameRows⟩ := unique _ _ _ _ assertion other
      rw [← encode_injective sameKey, ← encode_injective sameRows]
      rw [← encode_injective sameKey, Dictionary.find?_insert_self] at bound
      rw [Option.some.inj bound]
    · rintro rfl
      exact ⟨"K", "SELECT 1", " 1 \n2", assertion, Dictionary.find?_insert_self .., rfl⟩
  · have definition : IsDefinition (asciiBytes "define  K\t\nSELECT 1") (encode "K")
        (encode "SELECT 1") := ⟨[Scan.space], [Scan.tab], by decide⟩
    have taken : define .empty (asciiBytes "define  K\t\nSELECT 1") =
        .ok (.context (Dictionary.empty.insert "K" "SELECT 1")) :=
      define_eq_context_iff.mpr ⟨"K", "SELECT 1", definition, rfl, rfl⟩
    refine ⟨_, taken, ?_⟩
    obtain ⟨key, query, other, reached⟩ := (checks_exact ..).2.2.2.2.2 _ taken
    obtain ⟨sameKey, sameQuery⟩ := definition.unique other
    obtain rfl := encode_injective sameKey
    obtain rfl := encode_injective sameQuery
    exact reached _ (Dictionary.Within.refl _) " 1 \n2" isRows

end Directive

end SqlFixture
