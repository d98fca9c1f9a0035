import SqlFixture.Proofs.Outcome
import SqlFixture.Proofs.Provenance

/-
**A test can be built again from its parts.**

The canonical text of a test has the definitions first, in whatever order, and then the texts of the
statements, with a semicolon and a newline behind each. Moving the definitions to the front makes no
key defined twice and changes no statement, because the keys are different and a statement acts
alike where more is bound. The limit that allowed the fixture allows this text too: no part of the
test came without a chunk.

* `Test.canonical`: the text;
* `Progress.takeAll_definitions`, `Progress.takeAll_statements`: its two halves, read again;
* `Test.build_canonical`: it builds with the same limit, to the same test apart from the positions.
-/

namespace SqlFixture

open Directive

/-! ### The text -/

namespace Test

/-- The texts that make up a test: its definitions in some order, and its statements. -/
def texts (bindings : List (String × String)) (statements : List Statement) : List Bytes :=
  bindings.map (fun binding => Context.definition binding.1 binding.2) ++
    statements.map Statement.source

/-- The canonical text: a semicolon and a newline end each part. -/
def canonical (bindings : List (String × String)) (statements : List Statement) : Bytes :=
  Scan.written (texts bindings statements)

end Test

/-- A statement without its positions. -/
def Statement.content (statement : Statement) : Bytes × Action :=
  (statement.source, statement.action)

/-! ### Reading it -/

namespace Progress

/-- Definitions of all that a context binds lead to that context, in whatever order they come. The
induction is on those that are still to be read, and together with what is bound already they are
all there is. -/
theorem takeAll_definitions {context : Context} {bindings : List (String × String)}
    (definable : ∀ binding ∈ bindings, Context.Definable binding.1 binding.2)
    {progress : Progress} {chunks : List Chunk}
    (together : (progress.context.entries ++ bindings).Perm context.entries)
    (sources : chunks.map Chunk.source =
      bindings.map fun binding => Context.definition binding.1 binding.2) :
    progress.takeAll standard chunks = .ok ⟨context, progress.recorded⟩ := by
  induction bindings generalizing progress chunks with
  | nil =>
    rw [List.map_eq_nil_iff.mp sources, takeAll]
    rw [List.append_nil] at together
    rw [← Dictionary.eq_of_perm together]
  | cons binding bindings ih =>
    obtain ⟨key, query⟩ := binding
    cases chunks with
    | nil => cases sources
    | cons chunk chunks =>
      obtain ⟨source, later⟩ := List.cons.inj sources
      have fresh := Dictionary.find?_eq_none_of_perm together
      have inserted := Dictionary.insertEntry_perm fresh query
      have one := (definable (key, query) List.mem_cons_self).take source fresh
      rw [takeAll, one]
      refine ih (fun other member => definable other (.tail _ member)) ?_ later
      refine ((inserted.append_right bindings).trans ?_).trans together
      exact List.perm_middle.symm

/-- The texts of statements that act become these statements again. -/
theorem takeAll_statements {statements : List Statement} {progress : Progress}
    (acting : ∀ statement ∈ statements,
      progress.context.ActsAs statement.source statement.action)
    {chunks : List Chunk} (sources : chunks.map Chunk.source = statements.map Statement.source) :
    ∃ again : List Statement, progress.takeAll standard chunks =
        .ok ⟨progress.context, again.reverse ++ progress.recorded⟩ ∧
      again.map Statement.content = statements.map Statement.content := by
  induction statements generalizing progress chunks with
  | nil => exact ⟨[], by rw [List.map_eq_nil_iff.mp sources]; rfl, rfl⟩
  | cons statement statements ih =>
    cases chunks with
    | nil => cases sources
    | cons chunk chunks =>
      obtain ⟨source, later⟩ := List.cons.inj sources
      have one := acting statement List.mem_cons_self progress chunk source (.refl _)
      have others : ∀ other ∈ statements,
          (progress.record chunk statement.action).context.ActsAs other.source other.action :=
        fun other member => acting other (.tail _ member)
      obtain ⟨again, taken, same⟩ := ih others later
      refine ⟨⟨chunk.left, chunk.right, chunk.source, statement.action⟩ :: again, ?_, ?_⟩
      · rw [takeAll, one, List.reverse_cons, List.append_assoc]
        exact taken
      · rw [List.map_cons, List.map_cons, same, Statement.content, source]
        rfl

end Progress

/-! ### Building it -/

namespace Test

variable {config : Config} {name : String} {fixture : Bytes}

/-- A test that is built keeps the invariant of its chunks, of which the limit allowed as many. -/
theorem reproducible_of_build {limit : Nat} {test : Test}
    (built : build { limit := limit } name fixture = .ok test) :
    (Progress.mk test.context test.statements.reverse).Reproducible ∧
      test.context.size + test.statements.length ≤ limit := by
  let config : Config := { limit := limit }
  have within : (config.chunks fixture).length ≤ limit := List.length_take_le ..
  have cut : ∀ chunk ∈ config.chunks fixture, Scan.IsStatement chunk.source := fun chunk member =>
    Remainder.isStatement_of_mem_chunks _ chunk (List.mem_of_mem_take member)
  obtain ⟨reproducible, few⟩ :=
    Progress.reproducible_of_takeAll cut Progress.reproducible_start (takeAll_of_build built)
  refine ⟨reproducible, ?_⟩
  have sizes : test.context.size + test.statements.reverse.length ≤
      0 + (config.chunks fixture).length := few
  rw [List.length_reverse] at sizes
  omega

section

variable {context : Context} {statements : List Statement} {bindings : List (String × String)}
  (reproducible : (Progress.mk context statements.reverse).Reproducible)
  (ordered : bindings.Perm context.entries)

include reproducible ordered

theorem isStatement_of_mem_texts :
    ∀ text ∈ texts bindings statements, Scan.IsStatement text := by
  intro text member
  rcases List.mem_append.mp member with defines | acts
  · obtain ⟨binding, bound, rfl⟩ := List.mem_map.mp defines
    exact (reproducible.definable binding (ordered.mem_iff.mp bound)).isStatement
  · obtain ⟨statement, recorded, rfl⟩ := List.mem_map.mp acts
    exact reproducible.statements statement (List.mem_reverse.mpr recorded)

/-- Chunks with these texts lead to the context and to the statements. -/
theorem takeAll_texts {chunks : List Chunk}
    (sources : chunks.map Chunk.source = texts bindings statements) :
    ∃ again : List Statement,
      Progress.start.takeAll standard chunks = .ok ⟨context, again.reverse⟩ ∧
      again.map Statement.content = statements.map Statement.content := by
  obtain ⟨defining, acting, rfl, defines, acts⟩ := List.map_eq_append_iff.mp sources
  have definable : ∀ binding ∈ bindings, Context.Definable binding.1 binding.2 :=
    fun binding member => reproducible.definable binding (ordered.mem_iff.mp member)
  have together : (Progress.start.context.entries ++ bindings).Perm context.entries := ordered
  have actions : ∀ statement ∈ statements,
      (Progress.mk context []).context.ActsAs statement.source statement.action :=
    fun statement member => reproducible.acting statement (List.mem_reverse.mpr member)
  obtain ⟨again, taken, same⟩ := Progress.takeAll_statements actions acts
  refine ⟨again, ?_, same⟩
  rw [Progress.takeAll_append, Progress.takeAll_definitions definable together defines]
  rw [List.append_nil] at taken
  exact taken

end

/-- **A test can be built again from its parts.** Let a fixture build, with the usual delimiter and
the usual chain. Then the canonical text of its test, with the definitions in any order, builds with
the same limit, binds the same queries, and has the same statements apart from their positions. -/
theorem build_canonical {limit : Nat} {test : Test}
    (built : build { limit := limit } name fixture = .ok test)
    {bindings : List (String × String)} (ordered : bindings.Perm test.context.entries)
    (called : String) :
    ∃ again, build { limit := limit } called (canonical bindings test.statements) = .ok again ∧
      again.context = test.context ∧
      again.statements.map Statement.content = test.statements.map Statement.content := by
  obtain ⟨reproducible, few⟩ := reproducible_of_build built
  obtain ⟨sources, moving⟩ :=
    Remainder.cutting_whole_written (isStatement_of_mem_texts reproducible ordered)
  obtain ⟨again, taken, same⟩ := takeAll_texts reproducible ordered sources
  have count := congrArg List.length sources
  rw [List.length_map, texts, List.length_append, List.length_map, List.length_map,
    ordered.length_eq] at count
  have something : again.reverse ≠ [] := by
    intro nothing
    obtain ⟨_, _, acting, rfl⟩ := build_eq_ok built
    rw [List.reverse_eq_nil_iff.mp nothing] at same
    exact acting (List.map_eq_nil_iff.mp same.symm)
  have rebuilt : build { limit := limit } called (canonical bindings test.statements) =
      .ok ⟨called, test.context, again.reverse.reverse⟩ :=
    build_of_takeAll { limit := limit } called (Nat.le_trans (Nat.le_of_eq count) few) moving taken
      something
  rw [List.reverse_reverse] at rebuilt
  exact ⟨⟨called, test.context, again⟩, rebuilt, rfl, same⟩

/-- Two definitions, one behind a comment and one behind a statement, then an assertion. -/
theorem build_canonical_of_two_bindings :
    let fixture := asciiBytes
      "-- c\ndefine b\nSELECT 2;;\nSELECT 0 ;\ndefine  a \nSELECT 1;\nassert b 2"
    let bindings := [("b", "SELECT 2;"), ("a", "SELECT 1")]
    ∃ test, build { limit := 4 } "t" fixture = .ok test ∧
      bindings.Perm test.context.entries ∧
      canonical bindings test.statements =
        asciiBytes "define b\nSELECT 2;;\ndefine a\nSELECT 1;\nSELECT 0 ;\nassert b 2;\n" ∧
      ∃ again, build { limit := 4 } "u" (canonical bindings test.statements) = .ok again ∧
        again.context = test.context ∧
        again.statements.map Statement.content = test.statements.map Statement.content := by
  intro fixture bindings
  have told : (build { limit := 4 } "t" fixture).toOption.map (fun test =>
      (test.context.entries, test.statements.map Statement.source)) =
      some ([("a", "SELECT 1"), ("b", "SELECT 2;")],
        [asciiBytes "SELECT 0 ", asciiBytes "assert b 2"]) := by
    decide +kernel
  cases built : build { limit := 4 } "t" fixture with
  | error failure => rw [built] at told; cases told
  | ok test =>
    rw [built] at told
    obtain ⟨entries, sources⟩ := Prod.mk.inj (Option.some.inj told)
    have ordered : bindings.Perm test.context.entries := by
      rw [entries]
      exact .swap ..
    refine ⟨test, rfl, ordered, ?_, build_canonical built ordered "u"⟩
    rw [canonical, texts, sources]
    decide

end Test

end SqlFixture
