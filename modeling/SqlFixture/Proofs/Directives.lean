import SqlFixture.Directive
import SqlFixture.Proofs.Encoding

/-
**What the usual chain takes.**

A statement that begins with a keyword belongs to the directive of that keyword, and a directive
that takes a statement either binds a new key or acts. What acts depends on the context through the
key of an assertion alone, so that it acts alike under every context that binds more.

* `Directive.defineBody_eq_ok_iff`, `assertBody_eq_ok_iff`, `exceptBody_eq_ok_iff`: the directives;
* `Directive.keyword_eq_iff`, `keyword_eq_notMatched_iff`: what a keyword decides;
* `Directive.interpret_standard`: the chain, with its keywords apart;
* `Directive.eq_define_of_interpret`: whoever changes the context is a definition of a new key;
* `Directive.interpret_of_within`: whatever acts does so under a larger context.
-/

namespace SqlFixture.Directive

/-! ### Steps that may refuse -/

theorem bind_eq_ok_iff {first : Except ε α} {next : α → Except ε β} {result : β} :
    (first >>= next) = .ok result ↔ ∃ part, first = .ok part ∧ next part = .ok result := by
  cases first with
  | error cause => exact ⟨nofun, fun ⟨_, absent, _⟩ => nomatch absent⟩
  | ok part =>
    refine ⟨fun taken => ⟨part, rfl, taken⟩, ?_⟩
    rintro ⟨other, same, taken⟩
    rw [Except.ok.inj same]
    exact taken

theorem bind_of_ok {first : Except ε α} {next : α → Except ε β} {part : α}
    (passed : first = .ok part) : (first >>= next) = next part := by
  rw [passed]
  rfl

theorem text_eq_ok_iff_encode {bytes : Bytes} {decoded : String} :
    text bytes = .ok decoded ↔ bytes = Utf8.encode decoded :=
  text_eq_ok_iff.trans Utf8.decode_eq_ok_iff

/-! ### The directives -/

variable {context later : Context} {body probe : Bytes} {outcome : Outcome}

theorem defineBody_eq_ok_iff :
    defineBody context body = .ok outcome ↔
      ∃ key query first, Scan.splitAround? newline body = some (first, Utf8.encode query) ∧
        Scan.trim first = Utf8.encode key ∧ Utf8.encode key ≠ [] ∧ Utf8.encode query ≠ [] ∧
        (Utf8.encode key).any Scan.isPadding = false ∧ context.find? key = none ∧
        outcome = .context (context.insert key query) := by
  simp only [defineBody, bind_eq_ok_iff, require_eq_ok_iff, refuseIf_eq_ok_iff,
    text_eq_ok_iff_encode, Context.define_eq_some_iff, exists_const]
  constructor
  · rintro ⟨⟨first, rest⟩, split, someKey, someQuery, key, trimmed, solid, query, rfl, _,
      ⟨fresh, rfl⟩, taken⟩
    rw [trimmed] at someKey solid
    exact ⟨key, query, first, split, trimmed, List.isEmpty_eq_false_iff.mp someKey,
      List.isEmpty_eq_false_iff.mp someQuery, solid, fresh, (Except.ok.inj taken).symm⟩
  · rintro ⟨key, query, first, split, trimmed, someKey, someQuery, solid, fresh, rfl⟩
    refine ⟨(first, Utf8.encode query), split, ?_, List.isEmpty_eq_false_iff.mpr someQuery, key,
      trimmed, ?_, query, rfl, _, ⟨fresh, rfl⟩, rfl⟩
    · rw [trimmed]
      exact List.isEmpty_eq_false_iff.mpr someKey
    · rw [trimmed]
      exact solid

theorem assertBody_eq_ok_iff :
    assertBody context body = .ok outcome ↔
      ∃ key query expected,
        Scan.splitAround? Scan.space (Scan.trim body) =
          some (Utf8.encode key, Utf8.encode expected) ∧
        Utf8.encode expected ≠ [] ∧ context.find? key = some query ∧
        outcome = .action (.assert key query expected) := by
  simp only [assertBody, bind_eq_ok_iff, require_eq_ok_iff, refuseIf_eq_ok_iff,
    text_eq_ok_iff_encode, exists_const]
  constructor
  · rintro ⟨_, ⟨_, _⟩, split, someRows, key, rfl, query, bound, expected, rfl, taken⟩
    exact ⟨key, query, expected, split, List.isEmpty_eq_false_iff.mp someRows, bound,
      (Except.ok.inj taken).symm⟩
  · rintro ⟨key, query, expected, split, someRows, bound, rfl⟩
    refine ⟨?_, (Utf8.encode key, Utf8.encode expected), split,
      List.isEmpty_eq_false_iff.mpr someRows, key, rfl, query, bound, expected, rfl, rfl⟩
    refine List.isEmpty_eq_false_iff.mpr fun nothing => ?_
    rw [nothing] at split
    cases split

theorem exceptBody_eq_ok_iff :
    exceptBody body = .ok outcome ↔
      ∃ substring query,
        Scan.splitAround? newline body = some (Utf8.encode substring, Utf8.encode query) ∧
        Utf8.encode substring ≠ [] ∧ Utf8.encode query ≠ [] ∧
        outcome = .action (.except query substring) := by
  simp only [exceptBody, bind_eq_ok_iff, require_eq_ok_iff, refuseIf_eq_ok_iff,
    text_eq_ok_iff_encode, exists_const]
  constructor
  · rintro ⟨⟨_, _⟩, split, someText, someQuery, substring, rfl, query, rfl, taken⟩
    exact ⟨substring, query, split, List.isEmpty_eq_false_iff.mp someText,
      List.isEmpty_eq_false_iff.mp someQuery, (Except.ok.inj taken).symm⟩
  · rintro ⟨substring, query, split, someText, someQuery, rfl⟩
    exact ⟨(Utf8.encode substring, Utf8.encode query), split,
      List.isEmpty_eq_false_iff.mpr someText, List.isEmpty_eq_false_iff.mpr someQuery, substring,
      rfl, query, rfl, rfl⟩

/-! ### The keywords -/

theorem afterKeyword?_eq_none_iff {keyword bytes : Bytes} :
    Scan.afterKeyword? keyword bytes = none ↔ ¬keyword <+: bytes := by
  constructor
  · rintro absent ⟨rest, whole⟩
    rw [Scan.afterKeyword?_eq_some_iff.mpr whole.symm] at absent
    cases absent
  · intro absent
    cases found : Scan.afterKeyword? keyword bytes with
    | none => rfl
    | some rest => exact absurd ⟨rest, (Scan.afterKeyword?_eq_some_iff.mp found).symm⟩ absent

section

variable {word : String} {read : Context → Bytes → Except StatementError Outcome}

/-- A directive answers for what stands behind its keyword. -/
theorem keyword_eq_iff {answer : Except StatementError Outcome}
    (matched : answer ≠ .ok .notMatched) :
    keyword word read context probe = answer ↔
      ∃ body, probe = asciiBytes word ++ body ∧ read context body = answer := by
  unfold keyword
  cases found : Scan.afterKeyword? (asciiBytes word) probe with
  | none =>
    constructor
    · rintro rfl
      exact absurd rfl matched
    · rintro ⟨body, whole, _⟩
      exact absurd ⟨body, whole.symm⟩ (afterKeyword?_eq_none_iff.mp found)
  | some body =>
    have whole := Scan.afterKeyword?_eq_some_iff.mp found
    constructor
    · intro same
      exact ⟨body, whole, same⟩
    · rintro ⟨other, rest, same⟩
      rw [whole] at rest
      rwa [List.append_cancel_left rest]

/-- A directive leaves what does not begin with its keyword to others, and nothing else. -/
theorem keyword_eq_notMatched_iff
    (takes : ∀ context body, read context body ≠ .ok .notMatched) :
    keyword word read context probe = .ok .notMatched ↔ ¬asciiBytes word <+: probe := by
  rw [← afterKeyword?_eq_none_iff]
  unfold keyword
  cases Scan.afterKeyword? (asciiBytes word) probe with
  | none => exact ⟨fun _ => rfl, fun _ => rfl⟩
  | some body => exact ⟨fun same => absurd same (takes context body), nofun⟩

end

theorem defineBody_ne_notMatched (context : Context) (body : Bytes) :
    defineBody context body ≠ .ok .notMatched := by
  intro taken
  obtain ⟨_, _, _, _, _, _, _, _, _, same⟩ := defineBody_eq_ok_iff.mp taken
  cases same

theorem assertBody_ne_notMatched (context : Context) (body : Bytes) :
    assertBody context body ≠ .ok .notMatched := by
  intro taken
  obtain ⟨_, _, _, _, _, _, same⟩ := assertBody_eq_ok_iff.mp taken
  cases same

theorem exceptBody_ne_notMatched (body : Bytes) : exceptBody body ≠ .ok .notMatched := by
  intro taken
  obtain ⟨_, _, _, _, _, same⟩ := exceptBody_eq_ok_iff.mp taken
  cases same

/-! ### The chain -/

/-- A directive in front of a chain takes what begins with its keyword and leaves the rest. -/
theorem interpret_keyword_cons {word : String}
    {read : Context → Bytes → Except StatementError Outcome} {others : List Interpreter}
    (takes : ∀ context body, read context body ≠ .ok .notMatched) (context : Context)
    (probe : Bytes) :
    interpret (keyword word read :: others) context probe =
      match Scan.afterKeyword? (asciiBytes word) probe with
      | some body => read context body
      | none => interpret others context probe := by
  rw [interpret, keyword]
  cases Scan.afterKeyword? (asciiBytes word) probe with
  | none => rfl
  | some body =>
    cases taken : read context body with
    | error cause => simp only [taken]
    | ok outcome =>
      cases outcome with
      | notMatched => exact absurd taken (takes context body)
      | context next => simp only [taken]
      | action action => simp only [taken]

theorem interpret_standard (context : Context) (probe : Bytes) :
    interpret standard context probe =
      match Scan.afterKeyword? (asciiBytes "define ") probe with
      | some body => defineBody context body
      | none =>
        match Scan.afterKeyword? (asciiBytes "assert ") probe with
        | some body => assertBody context body
        | none =>
          match Scan.afterKeyword? (asciiBytes "except ") probe with
          | some body => exceptBody body
          | none => .ok .notMatched := by
  rw [standard, define, interpret_keyword_cons, assert, interpret_keyword_cons, except,
    interpret_keyword_cons]
  · rfl
  · exact fun _ => exceptBody_ne_notMatched
  · exact assertBody_ne_notMatched
  · exact defineBody_ne_notMatched

/-! What begins with a keyword belongs to its directive. -/

theorem interpret_define (context : Context) (body : Bytes) :
    interpret standard context (asciiBytes "define " ++ body) = defineBody context body := by
  rw [interpret_standard, Scan.afterKeyword?_eq_some_iff.mpr rfl]

theorem interpret_assert (context : Context) (body : Bytes) :
    interpret standard context (asciiBytes "assert " ++ body) = assertBody context body := by
  have other : Scan.afterKeyword? (asciiBytes "define ") (asciiBytes "assert " ++ body) = none := rfl
  rw [interpret_standard, other, Scan.afterKeyword?_eq_some_iff.mpr rfl]

theorem interpret_except (context : Context) (body : Bytes) :
    interpret standard context (asciiBytes "except " ++ body) = exceptBody body := by
  have noDefine : Scan.afterKeyword? (asciiBytes "define ") (asciiBytes "except " ++ body) = none :=
    rfl
  have noAssert : Scan.afterKeyword? (asciiBytes "assert ") (asciiBytes "except " ++ body) = none :=
    rfl
  rw [interpret_standard, noDefine, noAssert, Scan.afterKeyword?_eq_some_iff.mpr rfl]

/-- Only a definition changes the context, and it binds a new key. -/
theorem defineBody_of_interpret {next : Context}
    (taken : interpret standard context probe = .ok (.context next)) :
    ∃ body, probe = asciiBytes "define " ++ body ∧
      defineBody context body = .ok (.context next) := by
  rw [interpret_standard] at taken
  split at taken
  next body found => exact ⟨body, Scan.afterKeyword?_eq_some_iff.mp found, taken⟩
  split at taken
  · obtain ⟨_, _, _, _, _, _, same⟩ := assertBody_eq_ok_iff.mp taken
    cases same
  split at taken
  · obtain ⟨_, _, _, _, _, same⟩ := exceptBody_eq_ok_iff.mp taken
    cases same
  · cases taken

/-- What does not change the context comes out alike where more is bound: a definition is no case of
this, and the query of an assertion is the one that is bound already. -/
theorem interpret_of_within (within : context.Within later)
    (taken : interpret standard context probe = .ok outcome)
    (acts : ∀ next, outcome ≠ .context next) :
    interpret standard later probe = .ok outcome := by
  rw [interpret_standard] at taken ⊢
  split at taken
  · obtain ⟨_, _, _, _, _, _, _, _, _, same⟩ := defineBody_eq_ok_iff.mp taken
    exact absurd same (acts _)
  split at taken
  · obtain ⟨key, query, expected, split, someRows, bound, same⟩ := assertBody_eq_ok_iff.mp taken
    exact assertBody_eq_ok_iff.mpr
      ⟨key, query, expected, split, someRows, within key query bound, same⟩
  · exact taken

end SqlFixture.Directive
