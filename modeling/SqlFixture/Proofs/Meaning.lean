import SqlFixture.Proofs.Outcome
import SqlFixture.Proofs.Provenance

/-
**What a chunk means, apart from the context.**

The text of a chunk alone decides whether it is a comment, a directive or plain SQL, and what the
parts of the directive are. The context is asked for one key at most: that of a definition has to
be new, that of an assertion has to be bound. So reading a chunk falls into two halves, and a
change of the text and a change of the context can be looked at one by one.

* `Meaning`, `Means`: what texts mean;
* `Meaning.effect?`: what a meaning comes to under a context;
* `Directive.means_of_interpret`, `Directive.interpret_of_means`: the usual chain is these two;
* `Progress.take_eq_ok_iff_means`: so is the reading of a chunk.
-/

namespace SqlFixture

open Directive

/-- What a text says. -/
inductive Meaning where
  | comment
  | definition (key query : String)
  | assertion (key expected : String)
  | exception (query substring : String)
  | plain (sql : String)

/-- The words that begin a directive. -/
def Directive.keywords : List String := ["define ", "assert ", "except "]

/-- The meanings of a text, where `probe` is what follows its leading comments. -/
inductive Means (text : String) (probe : Bytes) : Meaning → Prop
  | comment (nothing : probe = []) : Means text probe .comment
  | definition {line : Bytes} {key query : String}
      (whole : probe = asciiBytes "define " ++ (line ++ newline :: Utf8.encode query))
      (inLine : newline ∉ line) (trimmed : Scan.trim line = Utf8.encode key)
      (someKey : Utf8.encode key ≠ []) (someQuery : Utf8.encode query ≠ [])
      (word : (Utf8.encode key).any Scan.isPadding = false) :
      Means text probe (.definition key query)
  | assertion {body : Bytes} {key expected : String}
      (whole : probe = asciiBytes "assert " ++ body)
      (trimmed : Scan.trim body = Utf8.encode key ++ Scan.space :: Utf8.encode expected)
      (inWord : Scan.space ∉ Utf8.encode key) (someRows : Utf8.encode expected ≠ []) :
      Means text probe (.assertion key expected)
  | exception {query substring : String}
      (whole : probe =
        asciiBytes "except " ++ (Utf8.encode substring ++ newline :: Utf8.encode query))
      (inLine : newline ∉ Utf8.encode substring)
      (someText : Utf8.encode substring ≠ []) (someQuery : Utf8.encode query ≠ []) :
      Means text probe (.exception query substring)
  | plain (something : probe ≠ [])
      (free : ∀ keyword ∈ keywords, ¬asciiBytes keyword <+: probe) :
      Means text probe (.plain text)

theorem Means.eq_comment {text : String} {probe : Bytes} {meaning : Meaning}
    (means : Means text probe meaning) (nothing : probe = []) : meaning = .comment := by
  cases means with
  | comment => rfl
  | definition whole => rw [nothing] at whole; cases whole
  | assertion whole => rw [nothing] at whole; cases whole
  | exception whole => rw [nothing] at whole; cases whole
  | plain something => exact absurd nothing something

/-- The context that a meaning leads to, and the action that it records, if the context allows it:
a definition needs a new key, an assertion a bound one. -/
def Meaning.effect? (context : Context) : Meaning → Option (Context × Option Action)
  | comment => some (context, none)
  | definition key query => (context.define key query).map fun next => (next, none)
  | assertion key expected =>
    (context.find? key).map fun query => (context, some (.assert key query expected))
  | exception query substring => some (context, some (.except query substring))
  | plain sql => some (context, some (.exec sql))

/-! ### The usual chain -/

/-- What an outcome comes to. -/
def Outcome.effect (context : Context) (text : String) : Outcome → Context × Option Action
  | .notMatched => (context, some (.exec text))
  | .context next => (next, none)
  | .action check => (context, some check)

namespace Directive

variable {context : Context} {text : String} {probe : Bytes}

/-- What the chain does not refuse has a meaning that the context allows. -/
theorem means_of_interpret {outcome : Outcome} (something : probe ≠ [])
    (taken : interpret standard context probe = .ok outcome) :
    ∃ meaning, Means text probe meaning ∧
      meaning.effect? context = some (outcome.effect context text) := by
  rw [interpret_standard] at taken
  split at taken
  next body found =>
    obtain ⟨key, query, line, split, trimmed, someKey, someQuery, word, fresh, rfl⟩ :=
      defineBody_eq_ok_iff.mp taken
    obtain ⟨rfl, inLine⟩ := Scan.splitAround?_eq_some_iff.mp split
    refine ⟨.definition key query, .definition (Scan.afterKeyword?_eq_some_iff.mp found) inLine
      trimmed someKey someQuery word, ?_⟩
    rw [Meaning.effect?, Context.define_eq_some_iff.mpr ⟨fresh, rfl⟩]
    rfl
  next noDefinition =>
  split at taken
  next body found =>
    obtain ⟨key, query, expected, split, someRows, bound, rfl⟩ := assertBody_eq_ok_iff.mp taken
    obtain ⟨trimmed, inWord⟩ := Scan.splitAround?_eq_some_iff.mp split
    refine ⟨.assertion key expected, .assertion (Scan.afterKeyword?_eq_some_iff.mp found) trimmed
      inWord someRows, ?_⟩
    rw [Meaning.effect?, bound]
    rfl
  next noAssertion =>
  split at taken
  next body found =>
    obtain ⟨substring, query, split, someText, someQuery, rfl⟩ := exceptBody_eq_ok_iff.mp taken
    obtain ⟨rfl, inLine⟩ := Scan.splitAround?_eq_some_iff.mp split
    exact ⟨.exception query substring, .exception (Scan.afterKeyword?_eq_some_iff.mp found) inLine
      someText someQuery, rfl⟩
  next noException =>
    cases taken
    refine ⟨.plain text, .plain something fun keyword member => ?_, rfl⟩
    rcases List.mem_cons.mp member with rfl | member
    · exact afterKeyword?_eq_none_iff.mp noDefinition
    rcases List.mem_cons.mp member with rfl | member
    · exact afterKeyword?_eq_none_iff.mp noAssertion
    · rw [List.mem_singleton.mp member]
      exact afterKeyword?_eq_none_iff.mp noException

/-- What has a meaning that the context allows is not refused by the chain. -/
theorem interpret_of_means {meaning : Meaning} {effect : Context × Option Action}
    (means : Means text probe meaning) (something : probe ≠ [])
    (allowed : meaning.effect? context = some effect) :
    ∃ outcome, interpret standard context probe = .ok outcome ∧
      outcome.effect context text = effect := by
  cases means with
  | comment nothing => exact absurd nothing something
  | @definition line key query whole inLine trimmed someKey someQuery word =>
    obtain ⟨next, defined, rfl⟩ := Option.map_eq_some_iff.mp allowed
    obtain ⟨fresh, rfl⟩ := Context.define_eq_some_iff.mp defined
    rw [whole, interpret_define]
    exact ⟨_, defineBody_eq_ok_iff.mpr ⟨key, query, line,
      Scan.splitAround?_eq_some_iff.mpr ⟨rfl, inLine⟩, trimmed, someKey, someQuery, word, fresh,
      rfl⟩, rfl⟩
  | @assertion body key expected whole trimmed inWord someRows =>
    obtain ⟨query, bound, rfl⟩ := Option.map_eq_some_iff.mp allowed
    rw [whole, interpret_assert]
    exact ⟨_, assertBody_eq_ok_iff.mpr ⟨key, query, expected,
      Scan.splitAround?_eq_some_iff.mpr ⟨trimmed, inWord⟩, someRows, bound, rfl⟩, rfl⟩
  | @exception query substring whole inLine someText someQuery =>
    cases allowed
    rw [whole, interpret_except]
    exact ⟨_, exceptBody_eq_ok_iff.mpr ⟨substring, query,
      Scan.splitAround?_eq_some_iff.mpr ⟨rfl, inLine⟩, someText, someQuery, rfl⟩, rfl⟩
  | plain _ free =>
    cases allowed
    have absent {keyword : String} (member : keyword ∈ keywords) :
        Scan.afterKeyword? (asciiBytes keyword) probe = none :=
      afterKeyword?_eq_none_iff.mpr (free keyword member)
    rw [interpret_standard, absent (.head _), absent (.tail _ (.head _)),
      absent (.tail _ (.tail _ (.head _)))]
    exact ⟨.notMatched, rfl, rfl⟩

end Directive

/-! ### One chunk -/

namespace Progress

variable {progress next : Progress} {chunk : Chunk}

/-- Goes over to a context and records an action for a chunk, if there is one. -/
def adopt (progress : Progress) (chunk : Chunk) (effect : Context × Option Action) : Progress :=
  ⟨effect.1, (effect.2.map fun action =>
    Statement.mk chunk.left chunk.right chunk.source action).toList ++ progress.recorded⟩

theorem add_eq_adopt (progress : Progress) (chunk : Chunk) (text : String) (outcome : Outcome) :
    progress.add chunk text outcome =
      progress.adopt chunk (outcome.effect progress.context text) := by
  cases outcome <;> rfl

/-- **A chunk is taken exactly if it is a text with a meaning that the context allows**, and then it
adds what the meaning comes to. -/
theorem take_eq_ok_iff_means :
    progress.take standard chunk = .ok next ↔
      ∃ text meaning effect, chunk.source = Utf8.encode text ∧
        Means text chunk.probe meaning ∧ meaning.effect? progress.context = some effect ∧
        next = progress.adopt chunk effect := by
  rw [take_eq_ok_iff]
  constructor
  · rintro ⟨text, encoded, ⟨nothing, rfl⟩ | ⟨something, outcome, read, rfl⟩⟩
    · exact ⟨text, .comment, (next.context, none), encoded, .comment nothing, rfl, rfl⟩
    · obtain ⟨meaning, means, allowed⟩ : ∃ meaning, Means text chunk.probe meaning ∧
          meaning.effect? progress.context = some (outcome.effect progress.context text) :=
        means_of_interpret something read
      exact ⟨text, meaning, _, encoded, means, allowed, add_eq_adopt ..⟩
  · rintro ⟨text, meaning, effect, encoded, means, allowed, rfl⟩
    refine ⟨text, encoded, ?_⟩
    by_cases nothing : Scan.afterComments chunk.source = []
    · refine .inl ⟨nothing, ?_⟩
      obtain rfl := means.eq_comment nothing
      cases allowed
      rfl
    · obtain ⟨outcome, read, rfl⟩ := interpret_of_means means nothing allowed
      exact .inr ⟨nothing, outcome, read, (add_eq_adopt ..).symm⟩

end Progress

end SqlFixture
