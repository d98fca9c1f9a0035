import SqlFixture.Proofs.Directives
import SqlFixture.Proofs.Written

/-
**Where the parts of a test come from.**

Each binding of a test was defined by a chunk, and each statement is the text of a chunk. What the
chunk was like is remembered in a form that does not mention it: a binding can be defined again by
its own two lines wherever its key is new, and a statement acts again in the same way wherever the
context binds at least what it bound then.

* `Context.Definable`: the bindings that can be defined, `Definable.take` defines them;
* `Context.ActsAs`: the texts that act, and go on to do so under larger contexts;
* `Progress.cases_of_take`: what one chunk can come to;
* `Progress.Reproducible`: the invariant, kept by `reproducible_of_take` and, over all chunks, by
  `reproducible_of_takeAll`; each binding and each statement takes up a chunk of its own.
-/

namespace SqlFixture

open Directive

/-! ### One chunk -/

/-- What a statement does at run time that the chain made an outcome of. -/
def Outcome.action? (sql : String) : Outcome → Option Action
  | .notMatched => some (.exec sql)
  | .context _ => none
  | .action check => some check

namespace Progress

variable {interpreters : List Interpreter} {progress next : Progress} {chunk : Chunk}

/-- What a chunk adds that the chain made an outcome of. -/
def add (progress : Progress) (chunk : Chunk) (sql : String) : Outcome → Progress
  | .notMatched => progress.record chunk (.exec sql)
  | .context next => { progress with context := next }
  | .action action => progress.record chunk action

/-- A chunk is taken if it is text, and either all comment or not refused by the chain. -/
theorem take_eq_ok_iff :
    progress.take interpreters chunk = .ok next ↔
      ∃ sql, chunk.source = Utf8.encode sql ∧
        (Scan.afterComments chunk.source = [] ∧ next = progress ∨
          Scan.afterComments chunk.source ≠ [] ∧ ∃ outcome,
            interpret interpreters progress.context (Scan.afterComments chunk.source) =
              .ok outcome ∧
            next = progress.add chunk sql outcome) := by
  simp only [take, bind_eq_ok_iff, text_eq_ok_iff_encode]
  refine exists_congr fun sql => and_congr_right fun _ => ?_
  cases Scan.afterComments chunk.source with
  | nil =>
    refine ⟨fun same => .inl ⟨rfl, (Except.ok.inj same).symm⟩, ?_⟩
    rintro (⟨_, rfl⟩ | ⟨absurdity, _⟩)
    · rfl
    · exact absurd rfl absurdity
  | cons first rest =>
    cases read : interpret interpreters progress.context (first :: rest) with
    | error cause =>
      refine ⟨nofun, ?_⟩
      rintro (⟨absurdity, _⟩ | ⟨_, _, other, _⟩)
      · cases absurdity
      · cases other
    | ok outcome =>
      have added : (Except.ok (progress.add chunk sql outcome) : Except StatementError Progress) =
            .ok next ↔
          first :: rest = [] ∧ next = progress ∨ first :: rest ≠ [] ∧
            ∃ other, (Except.ok outcome : Except StatementError Outcome) = .ok other ∧
              next = progress.add chunk sql other := by
        refine ⟨fun same => ?_, ?_⟩
        · exact .inr ⟨List.cons_ne_nil _ _, outcome, rfl, (Except.ok.inj same).symm⟩
        · rintro (⟨absurdity, _⟩ | ⟨_, other, same, rfl⟩)
          · cases absurdity
          · rw [Except.ok.inj same]
      cases outcome <;> exact added

end Progress

/-! ### Bindings -/

namespace Context

/-- The first line and the query of a definition. -/
def definition (key query : String) : Bytes :=
  asciiBytes "define " ++ (Utf8.encode key ++ newline :: Utf8.encode query)

/-- A binding that can be defined: both parts are there, the key is a word on one line, and no
semicolon ends a line. -/
structure Definable (key query : String) : Prop where
  someKey : Utf8.encode key ≠ []
  someQuery : Utf8.encode query ≠ []
  word : (Utf8.encode key).any Scan.isPadding = false
  inLine : newline ∉ Utf8.encode key
  unbroken : Scan.Unbroken (Utf8.encode key ++ newline :: Utf8.encode query)

variable {key query : String}

theorem Definable.isStatement (definable : Definable key query) :
    Scan.IsStatement (definition key query) := by
  refine ⟨⟨_, _, rfl, by decide⟩, definable.unbroken.append ?_⟩
  decide

theorem definition_eq_encode (key query : String) :
    definition key query = Utf8.encode ("define " ++ key ++ "\n" ++ query) := by
  have word : asciiBytes "define " = Utf8.encode "define " := by decide
  have line : Utf8.encode "\n" = [newline] := by decide
  rw [Utf8.encode_append, Utf8.encode_append, Utf8.encode_append, line, ← word, definition,
    List.append_assoc, List.append_assoc, List.singleton_append]

/-- No comment precedes the keyword. -/
theorem afterComments_definition (key query : String) :
    Scan.afterComments (definition key query) = definition key query := rfl

/-- A binding is defined by its own two lines where its key is new. -/
theorem Definable.take (definable : Definable key query) {progress : Progress} {chunk : Chunk}
    (source : chunk.source = definition key query) (fresh : progress.context.find? key = none) :
    progress.take standard chunk =
      .ok { progress with context := progress.context.insert key query } := by
  have taken : interpret standard progress.context (definition key query) =
      .ok (.context (progress.context.insert key query)) := by
    rw [definition, interpret_define]
    exact defineBody_eq_ok_iff.mpr ⟨key, query, Utf8.encode key,
      Scan.splitAround?_eq_some_iff.mpr ⟨rfl, definable.inLine⟩, Scan.trim_eq_self definable.word,
      definable.someKey, definable.someQuery, definable.word, fresh, rfl⟩
  refine Progress.take_eq_ok_iff.mpr ⟨_, source.trans (definition_eq_encode key query), .inr ?_⟩
  rw [source, afterComments_definition]
  exact ⟨List.cons_ne_nil _ _, _, taken, rfl⟩

/-- What a chunk defines can be defined. -/
theorem definable_of_interpret {context next : Context} {source : Bytes}
    (statement : Scan.IsStatement source)
    (taken : interpret standard context (Scan.afterComments source) = .ok (.context next)) :
    ∃ key query, Definable key query ∧ context.find? key = none ∧
      next = context.insert key query := by
  obtain ⟨body, probe, defined⟩ := defineBody_of_interpret taken
  obtain ⟨key, query, first, split, trimmed, someKey, someQuery, word, fresh, same⟩ :=
    defineBody_eq_ok_iff.mp defined
  obtain ⟨rfl, inLine⟩ := Scan.splitAround?_eq_some_iff.mp split
  obtain ⟨before, behind, whole, _, padding⟩ := Scan.exists_eq_trim first
  rw [trimmed] at whole
  refine ⟨key, query, ⟨someKey, someQuery, word, ?_, ?_⟩, fresh, Outcome.context.inj same⟩
  · intro member
    refine inLine (whole ▸ ?_)
    exact List.mem_append_left _ (List.mem_append_right _ member)
  · have regrouped : source = Scan.comments source ++ asciiBytes "define " ++ before ++
        (Utf8.encode key ++ behind ++ newline :: Utf8.encode query) := by
      conv => lhs; rw [← Scan.comments_append_afterComments source, probe, whole]
      simp only [List.append_assoc]
    have unbroken := statement.unbroken
    rw [regrouped] at unbroken
    exact unbroken.of_append.without_padding padding

/-- A text that acts, and does so under every context that binds what the given one binds. -/
def ActsAs (context : Context) (source : Bytes) (action : Action) : Prop :=
  ∀ (progress : Progress) (chunk : Chunk), chunk.source = source →
    context.Within progress.context →
    progress.take standard chunk = .ok (progress.record chunk action)

theorem ActsAs.of_within {context later : Context} {source : Bytes} {action : Action}
    (acts : context.ActsAs source action) (within : context.Within later) :
    later.ActsAs source action :=
  fun progress chunk same above => acts progress chunk same (within.trans above)

/-- What acts once goes on to act. -/
theorem actsAs_of_interpret {context : Context} {source : Bytes} {sql : String} {outcome : Outcome}
    {action : Action} (encoded : source = Utf8.encode sql)
    (inked : Scan.afterComments source ≠ [])
    (taken : interpret standard context (Scan.afterComments source) = .ok outcome)
    (acting : outcome.action? sql = some action) : context.ActsAs source action := by
  rintro progress chunk rfl within
  have acts : ∀ next, outcome ≠ .context next := by
    rintro next rfl
    cases acting
  have added : progress.add chunk sql outcome = progress.record chunk action := by
    cases outcome with
    | notMatched => cases acting; rfl
    | context next => cases acting
    | action other => cases acting; rfl
  exact Progress.take_eq_ok_iff.mpr
    ⟨sql, encoded, .inr ⟨inked, outcome, interpret_of_within within taken acts, added.symm⟩⟩

end Context

/-! ### All chunks -/

namespace Progress

/-- The bindings can be defined, and the statements act. -/
structure Reproducible (progress : Progress) : Prop where
  definable : ∀ binding ∈ progress.context.entries, Context.Definable binding.1 binding.2
  statements : ∀ statement ∈ progress.recorded, Scan.IsStatement statement.source
  acting : ∀ statement ∈ progress.recorded,
    progress.context.ActsAs statement.source statement.action

/-- The number of bindings and statements. -/
def size (progress : Progress) : Nat := progress.context.size + progress.recorded.length

theorem reproducible_start : start.Reproducible :=
  ⟨nofun, nofun, nofun⟩

variable {progress next : Progress} {chunk : Chunk}

/-- What a chunk of the usual chain comes to: nothing, a new binding, or a statement. -/
theorem cases_of_take (statement : Scan.IsStatement chunk.source)
    (taken : progress.take standard chunk = .ok next) :
    next = progress ∨
      (∃ key query, Context.Definable key query ∧ progress.context.find? key = none ∧
        next = { progress with context := progress.context.insert key query }) ∨
      ∃ action, progress.context.ActsAs chunk.source action ∧
        next = progress.record chunk action := by
  obtain ⟨sql, encoded, ⟨_, same⟩ | ⟨inked, outcome, read, rfl⟩⟩ := take_eq_ok_iff.mp taken
  · exact .inl same
  · cases outcome with
    | notMatched =>
      exact .inr (.inr ⟨_, Context.actsAs_of_interpret encoded inked read rfl, rfl⟩)
    | action action =>
      exact .inr (.inr ⟨_, Context.actsAs_of_interpret encoded inked read rfl, rfl⟩)
    | context context =>
      obtain ⟨key, query, definable, fresh, rfl⟩ := Context.definable_of_interpret statement read
      exact .inr (.inl ⟨key, query, definable, fresh, rfl⟩)

/-- A chunk keeps the invariant and adds at most one part. -/
theorem reproducible_of_take (statement : Scan.IsStatement chunk.source)
    (reproducible : progress.Reproducible) (taken : progress.take standard chunk = .ok next) :
    next.Reproducible ∧ next.size ≤ progress.size + 1 := by
  obtain ⟨definable, statements, acting⟩ := reproducible
  rcases cases_of_take statement taken with
    rfl | ⟨key, query, canDefine, fresh, rfl⟩ | ⟨action, acts, rfl⟩
  · exact ⟨⟨definable, statements, acting⟩, Nat.le_succ _⟩
  · refine ⟨⟨?_, statements, fun statement member => ?_⟩, ?_⟩
    · intro binding member
      rcases Dictionary.mem_insertEntry member with rfl | old
      · exact canDefine
      · exact definable binding old
    · exact (acting statement member).of_within (Dictionary.within_insert fresh query)
    · have more := (Dictionary.insertEntry_perm fresh query).length_eq
      show (Dictionary.insertEntry key query progress.context.entries).length +
        progress.recorded.length ≤ progress.context.entries.length + progress.recorded.length + 1
      rw [more, List.length_cons]
      omega
  · refine ⟨⟨definable, fun statement member => ?_, fun statement member => ?_⟩, ?_⟩
    · rcases List.mem_cons.mp member with rfl | old
      · exact ‹Scan.IsStatement chunk.source›
      · exact statements statement old
    · rcases List.mem_cons.mp member with rfl | old
      · exact acts
      · exact acting statement old
    · exact Nat.le_refl _

/-- All chunks keep the invariant and add at most one part each. -/
theorem reproducible_of_takeAll {chunks : List Chunk}
    (statements : ∀ chunk ∈ chunks, Scan.IsStatement chunk.source)
    (reproducible : progress.Reproducible) (taken : progress.takeAll standard chunks = .ok next) :
    next.Reproducible ∧ next.size ≤ progress.size + chunks.length := by
  induction chunks generalizing progress with
  | nil =>
    cases taken
    exact ⟨reproducible, Nat.le_refl _⟩
  | cons chunk chunks ih =>
    rw [takeAll] at taken
    cases here : progress.take standard chunk with
    | error cause => rw [here] at taken; cases taken
    | ok between =>
      rw [here] at taken
      obtain ⟨kept, one⟩ :=
        reproducible_of_take (statements chunk List.mem_cons_self) reproducible here
      obtain ⟨keptAll, many⟩ := ih (fun other later => statements other (.tail _ later)) kept taken
      refine ⟨keptAll, ?_⟩
      rw [List.length_cons]
      omega

end Progress

end SqlFixture
