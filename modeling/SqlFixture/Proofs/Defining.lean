import SqlFixture.Proofs.Boundary
import SqlFixture.Proofs.Meaning

/-
**The grammar of definitions.**

Behind its keyword, a definition has one key on the first line and its query below. Padding around
the key is no part of it, so that the line can be divided in one way only. Whatever else begins with
the keyword is refused. Several things may be wrong with it at once; then the first of them, in a
fixed order, is told.

* `StatementError.FirstOf`: the first rule of a list that applies, `firstOf_bind` follows it along
  the steps of a directive;
* `Directive.KeyLine`: what stands on the first line between its padding, and what is below it;
* `Directive.IsDefinition`: the grammar, `IsDefinition.unique`: it is read in one way;
* `Directive.definitionFaults`: what can be wrong, in the order in which it is told;
* `Directive.define_exact`: a definition is taken, and binds its key, exactly if it has the form of
  the grammar and the key is new; else its first fault is told.
-/

namespace SqlFixture

open Utf8

/-! ### The first rule that applies -/

/-- The cause that the first applicable rule of a list gives, where a rule applies if it gives any
cause. -/
inductive StatementError.FirstOf :
    List (StatementError → Prop) → StatementError → Prop
  | here {rule : StatementError → Prop} {later : List (StatementError → Prop)}
      {cause : StatementError} (applies : rule cause) : FirstOf (rule :: later) cause
  | later {rule : StatementError → Prop} {later : List (StatementError → Prop)}
      {cause : StatementError} (passed : ∀ other, ¬rule other) (first : FirstOf later cause) :
      FirstOf (rule :: later) cause

namespace Directive

open StatementError

variable {context next : Context} {body bytes key line probe query otherKey otherQuery : Bytes}
  {cause : StatementError}

/-- A step that refuses by one rule goes in front of steps that refuse by the rules of a list. -/
theorem firstOf_bind {first : Except StatementError α} {rest : α → Except StatementError β}
    {rule : StatementError → Prop} {later : List (StatementError → Prop)}
    (refuses : ∀ other, first = .error other ↔ rule other)
    (continues : ∀ part, first = .ok part → (rest part = .error cause ↔ FirstOf later cause)) :
    (first >>= rest) = .error cause ↔ FirstOf (rule :: later) cause := by
  cases first with
  | error refused =>
    have applies : rule refused := (refuses refused).mp rfl
    constructor
    · intro same
      cases same
      exact .here applies
    · intro told
      cases told with
      | here applies =>
        cases (refuses cause).mpr applies
        rfl
      | later passed => exact absurd applies (passed refused)
  | ok part =>
    have passed : ∀ other, ¬rule other := fun other applies => nomatch (refuses other).mpr applies
    constructor
    · intro same
      exact .later passed ((continues part rfl).mp same)
    · intro told
      cases told with
      | here applies => exact absurd applies (passed cause)
      | later _ first => exact (continues part rfl).mpr first

/-- The last step refuses nothing. -/
theorem firstOf_pure {result : α} :
    (pure result : Except StatementError α) = .error cause ↔ FirstOf [] cause :=
  ⟨nofun, nofun⟩

/-- Whether bytes are no text, with the cause that tells so. -/
def Unreadable (bytes : Bytes) (cause : StatementError) : Prop :=
  ¬IsText bytes ∧ ∃ offset, IsLongestText bytes offset ∧ cause = .invalidUtf8 offset

theorem text_eq_error_iff : text bytes = .error cause ↔ Unreadable bytes cause := by
  unfold text
  cases decodes : decode bytes with
  | ok decoded =>
    exact ⟨nofun, fun ⟨fault, _⟩ => absurd ⟨decoded, decode_eq_ok_iff.mp decodes⟩ fault⟩
  | error offset =>
    obtain ⟨fault, longest⟩ := decode_eq_error_iff.mp decodes
    constructor
    · intro same
      exact ⟨fault, offset, longest, (Except.error.inj same).symm⟩
    · rintro ⟨_, other, otherLongest, rfl⟩
      rw [longest.unique otherLongest]

theorem eq_encode_iff_of_text {name other : String} (read : text bytes = .ok name) :
    bytes = encode other ↔ name = other := by
  rw [text_eq_ok_iff_encode.mp read]
  exact ⟨encode_injective, congrArg encode⟩

/-! ### The line of the key -/

/-- Whether the first of several lines is `key` between padding, and `query` is what is below it. -/
def KeyLine (body key query : Bytes) : Prop :=
  ∃ before behind, body = before ++ key ++ behind ++ newline :: query ∧
    newline ∉ before ++ key ++ behind ∧ before.all Scan.isPadding ∧ behind.all Scan.isPadding ∧
    Scan.IsTrimmed key

theorem keyLine_iff :
    KeyLine body key query ↔
      ∃ line, Scan.splitAround? newline body = some (line, query) ∧ Scan.trim line = key := by
  simp only [Scan.splitAround?_eq_some_iff, Scan.trim_eq_iff]
  constructor
  · rintro ⟨before, behind, whole, inLine, paddingBefore, paddingBehind, trimmed⟩
    exact ⟨before ++ key ++ behind, ⟨whole, inLine⟩, trimmed, before, behind, rfl, paddingBefore,
      paddingBehind⟩
  · rintro ⟨_, ⟨whole, inLine⟩, trimmed, before, behind, rfl, paddingBefore, paddingBehind⟩
    exact ⟨before, behind, whole, inLine, paddingBefore, paddingBehind, trimmed⟩

theorem keyLine_iff_of_split (split : Scan.splitAround? newline body = some (line, query)) :
    KeyLine body key otherQuery ↔ Scan.trim line = key ∧ query = otherQuery := by
  rw [keyLine_iff, split]
  constructor
  · rintro ⟨_, same, trimmed⟩
    obtain ⟨rfl, rfl⟩ := Prod.mk.inj (Option.some.inj same)
    exact ⟨trimmed, rfl⟩
  · rintro ⟨trimmed, rfl⟩
    exact ⟨line, rfl, trimmed⟩

/-! ### The grammar -/

/-- Whether bytes are the keyword, a key between padding, a newline and a query. Key and query are
not empty, and in the key there is neither padding nor a newline. -/
def IsDefinition (probe key query : Bytes) : Prop :=
  ∃ before behind, probe = asciiBytes "define " ++ (before ++ key ++ behind ++ newline :: query) ∧
    before.all Scan.isPadding ∧ behind.all Scan.isPadding ∧
    key ≠ [] ∧ key.any Scan.isPadding = false ∧ newline ∉ key ∧ query ≠ []

theorem newline_not_mem_of_padding (padding : bytes.all Scan.isPadding) : newline ∉ bytes :=
  fun member => nomatch List.all_eq_true.mp padding newline member

theorem isDefinition_iff :
    IsDefinition probe key query ↔ ∃ body, probe = asciiBytes "define " ++ body ∧
      KeyLine body key query ∧ key ≠ [] ∧ key.any Scan.isPadding = false ∧ query ≠ [] := by
  constructor
  · rintro ⟨before, behind, whole, paddingBefore, paddingBehind, someKey, word, inLine, someQuery⟩
    refine ⟨_, whole, ⟨before, behind, rfl, ?_, paddingBefore, paddingBehind,
      Scan.isTrimmed_of_solid word⟩, someKey, word, someQuery⟩
    rw [List.mem_append, List.mem_append]
    rintro ((inFront | inKey) | behindKey)
    · exact newline_not_mem_of_padding paddingBefore inFront
    · exact inLine inKey
    · exact newline_not_mem_of_padding paddingBehind behindKey
  · rintro ⟨_, rfl, ⟨before, behind, rfl, inLine, paddingBefore, paddingBehind, _⟩, someKey, word,
      someQuery⟩
    refine ⟨before, behind, rfl, paddingBefore, paddingBehind, someKey, word, fun inKey => ?_,
      someQuery⟩
    exact inLine (List.mem_append_left _ (List.mem_append_right _ inKey))

/-- **A definition is read in one way.** -/
theorem IsDefinition.unique (first : IsDefinition probe key query)
    (second : IsDefinition probe otherKey otherQuery) :
    key = otherKey ∧ query = otherQuery := by
  obtain ⟨body, rfl, keyLine, _⟩ := isDefinition_iff.mp first
  obtain ⟨other, whole, otherLine, _⟩ := isDefinition_iff.mp second
  obtain rfl := List.append_cancel_left whole
  obtain ⟨line, split, rfl⟩ := keyLine_iff.mp keyLine
  exact (keyLine_iff_of_split split).mp otherLine

/-- A directive that takes a definition binds its key anew. -/
theorem define_eq_context_iff :
    define context probe = .ok (.context next) ↔
      ∃ key query, IsDefinition probe (encode key) (encode query) ∧ context.find? key = none ∧
        next = context.insert key query := by
  rw [define, keyword_eq_iff (by simp)]
  simp only [defineBody_eq_ok_iff, isDefinition_iff, keyLine_iff, Outcome.context.injEq]
  constructor
  · rintro ⟨body, whole, key, query, line, split, trimmed, someKey, someQuery, word, fresh, rfl⟩
    exact ⟨key, query, ⟨body, whole, ⟨line, split, trimmed⟩, someKey, word, someQuery⟩, fresh, rfl⟩
  · rintro ⟨key, query, ⟨body, whole, ⟨line, split, trimmed⟩, someKey, word, someQuery⟩, fresh, rfl⟩
    exact ⟨body, whole, key, query, line, split, trimmed, someKey, someQuery, word, fresh, rfl⟩

/-! ### What is refused -/

/-- What can be wrong behind the keyword of a definition, each with the cause that tells it, in the
order in which it is looked for: there is no newline; the key is missing; the query is missing; the
key is no text; there is padding in the key; the query is no text; the key is bound already. -/
def definitionFaults (context : Context) (body : Bytes) : List (StatementError → Prop) :=
  [fun cause => newline ∉ body ∧ cause = .defineMissingNewline,
   fun cause => (∃ query, KeyLine body [] query) ∧ cause = .defineMissingKey,
   fun cause => (∃ key, KeyLine body key []) ∧ cause = .defineMissingQuery,
   fun cause => ∃ key query, KeyLine body key query ∧ Unreadable key cause,
   fun cause => ∃ key query, KeyLine body (encode key) query ∧
     (encode key).any Scan.isPadding ∧ cause = .defineKeyWhitespace key,
   fun cause => ∃ key query, KeyLine body key query ∧ Unreadable query cause,
   fun cause => ∃ key query, KeyLine body (encode key) query ∧
     (context.find? key).isSome ∧ cause = .defineDuplicate key]

theorem defineBody_eq_error_iff :
    defineBody context body = .error cause ↔ FirstOf (definitionFaults context body) cause := by
  unfold defineBody definitionFaults
  refine firstOf_bind (fun other => ?_) fun ⟨line, query⟩ found => ?_
  · rw [require_eq_error_iff, Scan.splitAround?_eq_none_iff]
  -- From here on the line is divided, so that each rule is about these two parts.
  have split := require_eq_ok_iff.mp found
  simp only [keyLine_iff_of_split split]
  refine firstOf_bind (fun other => ?_) fun _ _ => ?_
  · simp only [refuseIf_eq_error_iff, List.isEmpty_iff, exists_and_left, exists_eq', and_true]
  refine firstOf_bind (fun other => ?_) fun _ _ => ?_
  · simp only [refuseIf_eq_error_iff, List.isEmpty_iff, exists_and_right, exists_eq', true_and]
  refine firstOf_bind (fun other => ?_) fun key read => ?_
  · simp only [text_eq_error_iff, and_assoc, exists_and_left, exists_eq_left']
  simp only [eq_encode_iff_of_text read]
  refine firstOf_bind (fun other => ?_) fun _ _ => ?_
  · simp only [refuseIf_eq_error_iff, and_assoc, exists_and_left, exists_eq_left',
      text_eq_ok_iff_encode.mp read]
  refine firstOf_bind (fun other => ?_) fun queryText _ => ?_
  · simp only [text_eq_error_iff, and_assoc, exists_and_left, exists_eq_left']
  refine firstOf_bind (fun other => ?_) fun _ _ => firstOf_pure
  · simp only [require_eq_error_iff, Context.define_eq_none_iff, and_assoc, exists_and_left,
      exists_eq_left']

/-- **A definition is taken exactly if it has the form of the grammar.** Under a context that does
not bind the key yet, the directive answers the context that binds the key to the query and is the
same elsewhere; key and query can be read in one way. What does not begin with the keyword is left
to others. All else is refused, and told is the first fault in the order of `definitionFaults`. -/
theorem define_exact (context : Context) (probe : Bytes) :
    ((∃ next, define context probe = .ok (.context next)) ↔
      ∃ key query, IsDefinition probe (encode key) (encode query) ∧ context.find? key = none) ∧
    (∀ next, define context probe = .ok (.context next) ↔
      ∃ key query, IsDefinition probe (encode key) (encode query) ∧ context.find? key = none ∧
        next.find? key = some query ∧
        ∀ other, other ≠ key → next.find? other = context.find? other) ∧
    (∀ key query otherKey otherQuery, IsDefinition probe key query →
      IsDefinition probe otherKey otherQuery → key = otherKey ∧ query = otherQuery) ∧
    (define context probe = .ok .notMatched ↔ ¬asciiBytes "define " <+: probe) ∧
    (∀ action, define context probe ≠ .ok (.action action)) ∧
    ∀ cause, define context probe = .error cause ↔
      ∃ body, probe = asciiBytes "define " ++ body ∧
        FirstOf (definitionFaults context body) cause := by
  refine ⟨?_, fun next => ?_, fun _ _ _ _ => IsDefinition.unique,
    keyword_eq_notMatched_iff defineBody_ne_notMatched, fun action acts => ?_, fun cause => ?_⟩
  · constructor
    · rintro ⟨_, taken⟩
      obtain ⟨key, query, definition, fresh, _⟩ := define_eq_context_iff.mp taken
      exact ⟨key, query, definition, fresh⟩
    · rintro ⟨key, query, definition, fresh⟩
      exact ⟨_, define_eq_context_iff.mpr ⟨key, query, definition, fresh, rfl⟩⟩
  · simp only [define_eq_context_iff, Dictionary.eq_insert_iff]
  · obtain ⟨_, _, acts⟩ := (keyword_eq_iff (by simp)).mp acts
    obtain ⟨_, _, _, _, _, _, _, _, _, same⟩ := defineBody_eq_ok_iff.mp acts
    cases same
  · rw [define, keyword_eq_iff (by simp)]
    simp only [defineBody_eq_error_iff]

/-- A key between padding is bound, and of two faults the missing query is told. -/
theorem define_exact_of_padding :
    (∃ next, define .empty (asciiBytes "define  K\t\nSELECT 1") = .ok (.context next) ∧
      next.find? "K" = some "SELECT 1") ∧
    define .empty (asciiBytes "define A A\n") = .error .defineMissingQuery := by
  constructor
  · obtain ⟨accepts, answers, unique, _⟩ :=
      define_exact .empty (asciiBytes "define  K\t\nSELECT 1")
    have definition : IsDefinition (asciiBytes "define  K\t\nSELECT 1") (encode "K")
        (encode "SELECT 1") := ⟨[Scan.space], [Scan.tab], by decide⟩
    obtain ⟨next, taken⟩ := accepts.mpr ⟨"K", "SELECT 1", definition, rfl⟩
    obtain ⟨key, query, other, _, bound, _⟩ := (answers next).mp taken
    obtain ⟨sameKey, sameQuery⟩ := unique _ _ _ _ definition other
    rw [encode_injective sameKey, encode_injective sameQuery]
    exact ⟨next, taken, bound⟩
  · refine ((define_exact ..).2.2.2.2.2 _).mpr ⟨asciiBytes "A A\n", rfl, ?_⟩
    have split : Scan.splitAround? newline (asciiBytes "A A\n") = some (asciiBytes "A A", []) := rfl
    refine .later ?_ (.later ?_ (.here ⟨⟨_, keyLine_iff.mpr ⟨_, split, rfl⟩⟩, rfl⟩))
    · rintro _ ⟨absent, _⟩
      exact absent (by decide)
    · rintro _ ⟨⟨query, keyLine⟩, _⟩
      exact nomatch ((keyLine_iff_of_split split).mp keyLine).1

end Directive

end SqlFixture
