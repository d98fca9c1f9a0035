import Mathlib.Data.List.Nodup
import SqlFixture.Proofs.Meaning

/-
**A chain of directives, in any order.**

No keyword begins another one, and a directive leaves alone what does not begin with its keyword. So
of all directives in a chain at most one has anything to say about a statement, and neither its
place in the chain nor a second copy of it makes a difference. What begins with a keyword never gets
past the chain, however malformed it is.

* `Directive.byKeyword`: the directives, each with its keyword, `directive_unique`: the keywords
  exclude each other;
* `Directive.interpret_of_only`: a chain in which all who answer at all answer alike;
* `Directive.IsDirectiveChain`: all directives, in any order and any number;
* `Directive.interpret_eq_standard`: such a chain is as good as the usual one;
* `Chunk.HandledBy`: how a directive handles a chunk, `handledBy_of_keyword`: it does so with each
  chunk that begins with its keyword and is not refused;
* `Test.build_any_chain`: what this says of a build.
-/

namespace SqlFixture

namespace Directive

variable {chain : List Interpreter} {context : Context} {probe : Bytes}

/-! ### One directive -/

/-- The directives, each with its keyword. -/
def byKeyword : List (String × Interpreter) :=
  [("define ", define), ("assert ", assert), ("except ", except)]

theorem mem_standard_iff {interpreter : Interpreter} :
    interpreter ∈ standard ↔ ∃ word, (word, interpreter) ∈ byKeyword := by
  show interpreter ∈ byKeyword.map Prod.snd ↔ _
  rw [List.mem_map, Prod.exists]
  simp only [exists_eq_right]

theorem mem_keywords_iff {word : String} :
    word ∈ keywords ↔ ∃ directive, (word, directive) ∈ byKeyword := by
  show word ∈ byKeyword.map Prod.fst ↔ _
  rw [List.mem_map, Prod.exists]
  simp only [exists_and_right, exists_eq_right]

/-- All keywords are of one length. -/
theorem length_keyword : ∀ word ∈ keywords, (asciiBytes word).length = 7 := by decide

section Table

variable {word other : String} {directive otherDirective : Interpreter}

/-- A directive reads what is behind its keyword; it leaves none of it to others, and makes no plain
statement of it. -/
theorem exists_read (member : (word, directive) ∈ byKeyword) :
    ∃ read, directive = keyword word read ∧
      (∀ context body, read context body ≠ .ok .notMatched) ∧
      ∀ context body sql, read context body ≠ .ok (.action (.exec sql)) := by
  simp only [byKeyword, List.mem_cons, Prod.mk.injEq, List.not_mem_nil, or_false] at member
  rcases member with ⟨rfl, rfl⟩ | ⟨rfl, rfl⟩ | ⟨rfl, rfl⟩
  · refine ⟨_, rfl, defineBody_ne_notMatched, fun context body sql taken => ?_⟩
    obtain ⟨_, _, _, _, _, _, _, _, _, same⟩ := defineBody_eq_ok_iff.mp taken
    cases same
  · refine ⟨_, rfl, assertBody_ne_notMatched, fun context body sql taken => ?_⟩
    obtain ⟨_, _, _, _, _, _, same⟩ := assertBody_eq_ok_iff.mp taken
    cases same
  · refine ⟨_, rfl, fun _ => exceptBody_ne_notMatched, fun context body sql taken => ?_⟩
    obtain ⟨_, _, _, _, _, same⟩ := exceptBody_eq_ok_iff.mp taken
    cases same

theorem directive_eq_notMatched_iff (member : (word, directive) ∈ byKeyword) :
    directive context probe = .ok .notMatched ↔ ¬asciiBytes word <+: probe := by
  obtain ⟨read, rfl, takes, _⟩ := exists_read member
  exact keyword_eq_notMatched_iff takes

theorem directive_ne_exec (member : (word, directive) ∈ byKeyword) (sql : String) :
    directive context probe ≠ .ok (.action (.exec sql)) := by
  obtain ⟨read, rfl, _, plain⟩ := exists_read member
  intro acts
  obtain ⟨body, _, taken⟩ := (keyword_eq_iff (by simp)).mp acts
  exact plain context body sql taken

/-- **No two keywords begin the same bytes.** -/
theorem directive_unique (member : (word, directive) ∈ byKeyword)
    (otherMember : (other, otherDirective) ∈ byKeyword) (begins : asciiBytes word <+: probe)
    (otherBegins : asciiBytes other <+: probe) : directive = otherDirective := by
  have distinct : ∀ word ∈ keywords, ∀ other ∈ keywords,
      asciiBytes word <+: asciiBytes other → word = other := by decide
  have first := mem_keywords_iff.mpr ⟨directive, member⟩
  have second := mem_keywords_iff.mpr ⟨otherDirective, otherMember⟩
  have inside : asciiBytes word <+: asciiBytes other := by
    refine List.prefix_of_prefix_length_le begins otherBegins (Nat.le_of_eq ?_)
    rw [length_keyword word first, length_keyword other second]
  have nodup : (byKeyword.map Prod.fst).Nodup := show keywords.Nodup by decide
  have same : (word, directive) = (other, otherDirective) :=
    List.inj_on_of_nodup_map nodup member otherMember (distinct word first other second inside)
  exact congrArg Prod.snd same

end Table

/-! ### Chains -/

/-- What begins with no keyword, and what begins with the one of a directive. -/
theorem free_or_begins (probe : Bytes) :
    (∀ word ∈ keywords, ¬asciiBytes word <+: probe) ∨
      ∃ word directive, (word, directive) ∈ byKeyword ∧ asciiBytes word <+: probe := by
  by_cases free : ∀ word ∈ keywords, ¬asciiBytes word <+: probe
  · exact .inl free
  · simp only [not_forall, not_not] at free
    obtain ⟨word, isWord, begins⟩ := free
    obtain ⟨directive, member⟩ := mem_keywords_iff.mp isWord
    exact .inr ⟨word, directive, member, begins⟩

/-- Where all who take or refuse a statement answer alike, and there is one, the chain answers so:
whoever is asked behind the first of them does not matter. -/
theorem interpret_of_only {answer : Except StatementError Outcome}
    (matched : answer ≠ .ok .notMatched)
    (answered : ∃ interpreter ∈ chain, interpreter context probe = answer)
    (alike : ∀ interpreter ∈ chain, interpreter context probe = answer ∨
      interpreter context probe = .ok .notMatched) : interpret chain context probe = answer := by
  rcases decides_or_all chain context probe with ⟨decider, decides⟩ | all
  · rw [decides.interpret_eq]
    obtain ⟨earlier, later, rfl, _, takes⟩ := decides
    exact (alike decider (List.mem_append_right _ List.mem_cons_self)).resolve_right takes
  · obtain ⟨interpreter, member, rfl⟩ := answered
    exact absurd (all interpreter member) matched

/-- Whether a chain has all directives and nothing else, in any order and each any number of
times. -/
def IsDirectiveChain (chain : List Interpreter) : Prop :=
  ∀ interpreter, interpreter ∈ chain ↔ interpreter ∈ standard

theorem isDirectiveChain_standard : IsDirectiveChain standard := fun _ => Iff.rfl

section Made

variable (made : IsDirectiveChain chain)

include made

/-- What begins with a keyword is for the directive of that keyword. -/
theorem interpret_of_keyword {word : String} {directive : Interpreter}
    (member : (word, directive) ∈ byKeyword) (begins : asciiBytes word <+: probe) :
    interpret chain context probe = directive context probe := by
  have matched : directive context probe ≠ .ok .notMatched :=
    fun left => (directive_eq_notMatched_iff member).mp left begins
  have among : directive ∈ chain := (made directive).mpr (mem_standard_iff.mpr ⟨word, member⟩)
  refine interpret_of_only matched ⟨directive, among, rfl⟩ fun other otherAmong => ?_
  obtain ⟨otherWord, otherMember⟩ := mem_standard_iff.mp ((made other).mp otherAmong)
  by_cases otherBegins : asciiBytes otherWord <+: probe
  · rw [directive_unique member otherMember begins otherBegins]
    exact .inl rfl
  · exact .inr ((directive_eq_notMatched_iff otherMember).mpr otherBegins)

/-- What begins with no keyword gets past the chain. -/
theorem interpret_of_free (free : ∀ word ∈ keywords, ¬asciiBytes word <+: probe) :
    interpret chain context probe = .ok .notMatched := by
  refine interpret_of_all fun interpreter among => ?_
  obtain ⟨word, member⟩ := mem_standard_iff.mp ((made interpreter).mp among)
  exact (directive_eq_notMatched_iff member).mpr (free word (mem_keywords_iff.mpr ⟨_, member⟩))

/-- **Order and repetitions do not matter.** -/
theorem interpret_eq_standard : interpret chain = interpret standard := by
  funext context probe
  rcases free_or_begins probe with free | ⟨word, directive, member, begins⟩
  · rw [interpret_of_free made free, interpret_of_free isDirectiveChain_standard free]
  · rw [interpret_of_keyword made member begins,
      interpret_of_keyword isDirectiveChain_standard member begins]

theorem interpret_eq_notMatched_iff :
    interpret chain context probe = .ok .notMatched ↔
      ∀ word ∈ keywords, ¬asciiBytes word <+: probe := by
  refine ⟨fun left word isWord begins => ?_, interpret_of_free made⟩
  obtain ⟨directive, member⟩ := mem_keywords_iff.mp isWord
  rw [interpret_of_keyword made member begins] at left
  exact (directive_eq_notMatched_iff member).mp left begins

/-- The chain itself makes no plain statement. -/
theorem interpret_ne_exec (sql : String) :
    interpret chain context probe ≠ .ok (.action (.exec sql)) := by
  intro acts
  rcases free_or_begins probe with free | ⟨word, directive, member, begins⟩
  · rw [interpret_of_free made free] at acts
    cases acts
  · rw [interpret_of_keyword made member begins] at acts
    exact directive_ne_exec member sql acts

end Made

end Directive

open Directive

/-! ### Chunks -/

namespace Chunk

variable {interpreters : List Interpreter} {context under : Context} {chunk : Chunk}
  {chunks : List Chunk}

theorem exists_context_of_mem (among : chunk ∈ chunks) :
    ∃ under, (under, chunk) ∈ inContext interpreters context chunks := by
  induction chunks generalizing context with
  | nil => cases among
  | cons first later ih =>
    rw [inContext_cons]
    rcases List.mem_cons.mp among with rfl | behind
    · exact ⟨context, List.mem_cons_self⟩
    · obtain ⟨under, member⟩ := ih behind
      exact ⟨under, .tail _ member⟩

theorem probe_ne_nil_of_keyword {word : String} (isWord : word ∈ keywords)
    (begins : asciiBytes word <+: chunk.probe) : chunk.probe ≠ [] := by
  intro nothing
  have long := length_keyword word isWord
  rw [nothing, List.prefix_nil] at begins
  rw [begins] at long
  cases long

/-- How a directive handles a chunk: it answers a context, which the chunk leaves behind without
becoming a statement, or it answers an action that is no plain statement, and the chunk becomes the
statement of this action. -/
inductive HandledBy (interpreters : List Interpreter) (context : Context) (directive : Interpreter)
    (chunk : Chunk) : Prop
  | bound
      (answers : directive context chunk.probe =
        .ok (.context (chunk.contextBehind interpreters context)))
      (unrecorded : chunk.statement? interpreters context = none)
  | recorded (action : Action) (answers : directive context chunk.probe = .ok (.action action))
      (records : chunk.statement? interpreters context =
        some ⟨chunk.left, chunk.right, chunk.source, action⟩)
      (kept : chunk.contextBehind interpreters context = context)
      (checks : ∀ sql, action ≠ .exec sql)

section Made

variable (made : IsDirectiveChain interpreters)

include made

/-- A chunk that is not all comment becomes a plain statement if it begins with no keyword. -/
theorem exists_exec_iff (something : chunk.probe ≠ []) :
    (∃ sql, chunk.statement? interpreters context =
        some ⟨chunk.left, chunk.right, chunk.source, .exec sql⟩) ↔
      ∀ word ∈ keywords, ¬asciiBytes word <+: chunk.probe := by
  have left_iff : interpret interpreters context chunk.probe = .ok .notMatched ↔ _ :=
    interpret_eq_notMatched_iff made
  rw [← left_iff]
  unfold statement? action?
  rw [if_neg something]
  cases answer : interpret interpreters context chunk.probe with
  | error cause => exact ⟨fun ⟨_, same⟩ => (nomatch same), nofun⟩
  | ok outcome =>
    cases outcome with
    | notMatched => exact ⟨fun _ => rfl, fun _ => ⟨_, rfl⟩⟩
    | context next => exact ⟨fun ⟨_, same⟩ => (nomatch same), nofun⟩
    | action action =>
      refine ⟨fun ⟨sql, same⟩ => ?_, nofun⟩
      cases same
      exact absurd answer (interpret_ne_exec made sql)

/-- Of several chunks, those that begin with no keyword become plain statements. -/
theorem exists_exec_mem_statements_iff (among : chunk ∈ chunks) (something : chunk.probe ≠ []) :
    (∃ sql, ⟨chunk.left, chunk.right, chunk.source, .exec sql⟩ ∈
        statements interpreters context chunks) ↔
      ∀ word ∈ keywords, ¬asciiBytes word <+: chunk.probe := by
  constructor
  · rintro ⟨sql, member⟩
    obtain ⟨⟨under, other⟩, _, becomes⟩ := List.mem_filterMap.mp member
    obtain ⟨action, _, same⟩ := Option.map_eq_some_iff.mp becomes
    -- The statement has the place and the bytes of its chunk, so that this is the chunk.
    obtain rfl : other = chunk := by
      obtain ⟨left, right, source⟩ := other
      obtain ⟨rfl, rfl, rfl, _⟩ := Statement.mk.inj same
      rfl
    exact (exists_exec_iff made something).mp ⟨sql, becomes⟩
  · intro free
    obtain ⟨under, member⟩ := exists_context_of_mem among
    obtain ⟨sql, becomes⟩ := (exists_exec_iff made something).mpr free
    exact ⟨sql, List.mem_filterMap.mpr ⟨(under, chunk), member, becomes⟩⟩

/-- **What begins with a keyword is refused, or handled by its directive.** -/
theorem handledBy_of_keyword {word : String} {directive : Interpreter}
    (member : (word, directive) ∈ byKeyword) (begins : asciiBytes word <+: chunk.probe)
    (accepted : chunk.refusal? interpreters context = none) :
    chunk.HandledBy interpreters context directive := by
  have answer : interpret interpreters context chunk.probe = directive context chunk.probe :=
    interpret_of_keyword made member begins
  have something := probe_ne_nil_of_keyword (mem_keywords_iff.mpr ⟨directive, member⟩) begins
  cases taken : directive context chunk.probe with
  | error cause =>
    rw [refusal?, if_neg something, answer, taken] at accepted
    cases decodes : Utf8.decode chunk.source with
    | error offset =>
      rw [decodes] at accepted
      cases accepted
    | ok text =>
      rw [decodes] at accepted
      cases accepted
  | ok outcome =>
    cases outcome with
    | notMatched => exact absurd begins ((directive_eq_notMatched_iff member).mp taken)
    | context next =>
      refine .bound ?_ ?_
      · rw [contextBehind, if_neg something, answer, taken]
      · rw [statement?, action?, if_neg something, answer, taken]
        rfl
    | action action =>
      refine .recorded action taken ?_ ?_ ?_
      · rw [statement?, action?, if_neg something, answer, taken]
        rfl
      · rw [contextBehind, if_neg something, answer, taken]
      · rintro sql rfl
        exact directive_ne_exec member sql taken

end Made

end Chunk

/-! ### Whole builds -/

section Alike

variable {chain other : List Interpreter} (alike : interpret chain = interpret other)

include alike

/-- Reading depends on the answers of a chain, and on nothing else of it. -/
theorem Progress.take_of_alike (progress : Progress) (chunk : Chunk) :
    progress.take chain chunk = progress.take other chunk := by
  unfold take
  rw [alike]

theorem Progress.takeAll_of_alike (progress : Progress) (chunks : List Chunk) :
    progress.takeAll chain chunks = progress.takeAll other chunks := by
  induction chunks generalizing progress with
  | nil => rfl
  | cons chunk chunks ih => simp only [takeAll, take_of_alike alike, ih]

end Alike

namespace Test

variable {config : Config} {fixture : Bytes}

/-- Chains that answer alike build alike. -/
theorem build_of_same_answers {other : List Interpreter}
    (alike : interpret config.interpreters = interpret other) (name : String) :
    build config name fixture = build { config with interpreters := other } name fixture := by
  have read : Progress.start.takeAll config.interpreters (config.chunks fixture) =
      Progress.start.takeAll other (config.chunks fixture) :=
    Progress.takeAll_of_alike alike _ _
  rw [build, build, finish_start_eq_takeAll, finish_start_eq_takeAll, read]
  rfl

/-- A build that succeeds has read all chunks. -/
theorem chunks_of_build {name : String} {test : Test}
    (built : build config name fixture = .ok test) :
    config.chunks fixture = ((Remainder.whole fixture).cutting config.delimiter).chunks := by
  obtain ⟨_, unfelt, _⟩ := build_eq_ok built
  exact List.take_of_length_le (limitPlace?_eq_none_iff.mp unfelt).1

/-- A refused chunk aborts the build. -/
theorem exists_failure_of_refusal {context : Context} {chunk : Chunk}
    (member : (context, chunk) ∈ Chunk.inContext config.interpreters .empty
      ((Remainder.whole fixture).cutting config.delimiter).chunks)
    (refused : chunk.refusal? config.interpreters context ≠ none) (name : String) :
    ∃ failure, build config name fixture = .error failure := by
  cases built : build config name fixture with
  | error failure => exact ⟨failure, rfl⟩
  | ok test =>
    obtain ⟨accepted, _⟩ := build_eq_ok built
    rw [Config.refusal?, Chunk.firstRefusal?, chunks_of_build built, List.findSome?_eq_none_iff] at accepted
    exact absurd (Option.map_eq_none_iff.mp (accepted _ member)) refused

/-- **No directive gets past a chain of all directives**, whatever their order is and however often
each of them is there. The build is the same as with the usual chain. If it succeeds, a chunk of the
fixture that is not all comment is recorded as a plain statement exactly if it begins with no
keyword behind its leading comments. A chunk that begins with one is refused and aborts the build,
or is handled by the directive of this keyword. -/
theorem build_any_chain (made : IsDirectiveChain config.interpreters) (name : String)
    (fixture : Bytes) :
    build config name fixture = build { config with interpreters := standard } name fixture ∧
    (∀ test, build config name fixture = .ok test →
      ∀ chunk ∈ ((Remainder.whole fixture).cutting config.delimiter).chunks, chunk.probe ≠ [] →
        ((∃ sql, ⟨chunk.left, chunk.right, chunk.source, .exec sql⟩ ∈ test.statements) ↔
          ∀ word ∈ keywords, ¬asciiBytes word <+: chunk.probe)) ∧
    ∀ word directive, (word, directive) ∈ byKeyword → ∀ context chunk,
      (context, chunk) ∈ Chunk.inContext config.interpreters .empty
        ((Remainder.whole fixture).cutting config.delimiter).chunks →
      asciiBytes word <+: chunk.probe →
        (chunk.refusal? config.interpreters context ≠ none ∧
          ∃ failure, build config name fixture = .error failure) ∨
        chunk.HandledBy config.interpreters context directive := by
  refine ⟨build_of_same_answers (interpret_eq_standard made) name, ?_, ?_⟩
  · intro test built chunk among something
    rw [← chunks_of_build built] at among
    obtain ⟨_, _, _, rfl⟩ := build_eq_ok built
    exact Chunk.exists_exec_mem_statements_iff made among something
  · intro word directive member context chunk entry begins
    by_cases accepted : chunk.refusal? config.interpreters context = none
    · exact .inr (Chunk.handledBy_of_keyword made member begins accepted)
    · exact .inl ⟨accepted, exists_failure_of_refusal entry accepted name⟩

/-- Directives in another order and some of them twice, before a definition and what follows it. -/
theorem build_any_chain_of_five :
    let config : Config :=
      { limit := 4, interpreters := [except, assert, define, assert, define] }
    let fixture :=
      asciiBytes "define K\nSELECT 1;\nassert K 1;\n-- c\nSELECT 2;\nexcept E\nSELECT 3"
    build config "t" fixture = build { limit := 4 } "t" fixture ∧
      ∃ test, build config "t" fixture = .ok test ∧ test.statements.map Statement.action =
        [.assert "K" "SELECT 1" "1", .exec "-- c\nSELECT 2", .except "SELECT 3" "E"] := by
  intro config fixture
  have made : IsDirectiveChain config.interpreters := by
    intro interpreter
    simp only [config, standard, List.mem_cons, List.not_mem_nil, or_false]
    grind
  have same : build config "t" fixture = build { limit := 4 } "t" fixture :=
    (build_any_chain made "t" fixture).1
  have told : (build { limit := 4 } "t" fixture).toOption.map
      (fun test => test.statements.map Statement.action) =
        some [.assert "K" "SELECT 1" "1", .exec "-- c\nSELECT 2", .except "SELECT 3" "E"] := by
    decide +kernel
  obtain ⟨test, built, actions⟩ := exists_of_toOption told
  exact ⟨same, test, same.trans built, actions⟩

end Test

end SqlFixture
